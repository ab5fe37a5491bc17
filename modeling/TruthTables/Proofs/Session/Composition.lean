import TruthTables.Proofs.Postfix.Groups
import TruthTables.Proofs.Session.Construction

set_option autoImplicit false

/-! # Texts put together

A session accepts more than the grammar (see `Session.Disguised`), but whatever it accepts can be put into
parentheses and used as a part of a larger text, with the meaning that it has alone. This needs no grammar.
An accepted text is balanced, and between parentheses a balanced text is converted on its own
(`Pending.run_group`). Its program lists a tree, so the whole has the tree that is put together from those
of the parts. -/

namespace TruthTables

namespace SymbolSet

/-- Judging finds nothing wrong with the text, and its program passes the check. -/
structure Accepts (set : SymbolSet) (text : String) (program : Postfix) : Prop where
  judged : set.checkText text = .ok ()
  converted : Postfix.ofText set text = .ok program
  checked : program.check = .ok ()

variable {set : SymbolSet} {text : String} {program : Postfix}

/-- What an accepted text is by its tokens: it is balanced, and its program lists a tree. -/
theorem Accepts.exists_tokens (h : set.Accepts text program) :
    ∃ (tokens : List Token) (e : Expr), set.tokensOf text = .ok tokens ∧ Balanced tokens ∧
      Postfix.ofTokens tokens = program ∧ program = ⟨e.postorder⟩ := by
  obtain ⟨tokens, htokens, rfl⟩ := Postfix.ofText_eq_ok_iff.1 h.converted
  obtain ⟨e, he⟩ := (Postfix.check_eq_ok_iff _).1 h.checked
  exact ⟨tokens, e, htokens, ((checkText_eq_ok_iff htokens).1 h.judged).2, rfl,
    congrArg Postfix.mk he⟩

theorem Accepts.of_tokens {tokens : List Token} (htokens : set.tokensOf text = .ok tokens)
    (hbegins : Begins tokens) (hbalanced : Balanced tokens) {e : Expr}
    (hprogram : Postfix.ofTokens tokens = ⟨e.postorder⟩) : set.Accepts text ⟨e.postorder⟩ where
  judged := (checkText_eq_ok_iff htokens).2 ⟨hbegins, hbalanced⟩
  converted := Postfix.ofText_eq_ok_iff.2 ⟨tokens, htokens, hprogram.symm⟩
  checked := (Postfix.check_eq_ok_iff _).2 ⟨e, rfl⟩

/-! ## Three ways to put texts together -/

theorem tokensOf_grouped {tokens : List Token} (h : set.tokensOf text = .ok tokens) :
    set.tokensOf ("(" ++ text ++ ")") = .ok (grouped tokens) := by
  have hopen : set.tokensOf "(" = .ok [.opening] := rfl
  have hclose : set.tokensOf ")" = .ok [.closing] := rfl
  exact tokensOf_append (tokensOf_append hopen h) hclose

theorem tokensOf_negation_grouped {tokens : List Token} (h : set.tokensOf text = .ok tokens) :
    set.tokensOf ("~(" ++ text ++ ")") = .ok (.operator .not :: grouped tokens) := by
  have hopen : set.tokensOf "~(" = .ok [.operator .not, .opening] := rfl
  have hclose : set.tokensOf ")" = .ok [.closing] := rfl
  exact tokensOf_append (tokensOf_append hopen h) hclose

theorem tokensOf_grouped_connective_grouped {text' : String} {tokens tokens' : List Token}
    (h : set.tokensOf text = .ok tokens) (h' : set.tokensOf text' = .ok tokens') (c : Connective) :
    set.tokensOf ("(" ++ text ++ ")" ++ c.char.toString ++ ("(" ++ text' ++ ")")) =
      .ok (grouped tokens ++ .operator (.binary c) :: grouped tokens') := by
  have hsign : set.tokensOf c.char.toString = .ok [.operator (.binary c)] := by cases c <;> rfl
  rw [tokensOf_append (tokensOf_append (tokensOf_grouped h) hsign) (tokensOf_grouped h'),
    List.append_assoc]
  rfl

/-- A text in parentheses is accepted with the program of the text. -/
theorem Accepts.grouped (h : set.Accepts text program) :
    set.Accepts ("(" ++ text ++ ")") program := by
  obtain ⟨tokens, e, htokens, hbalanced, hconverted, rfl⟩ := h.exists_tokens
  refine .of_tokens (tokensOf_grouped htokens) ⟨.operand, rfl⟩ hbalanced.group ?_
  rw [Postfix.ofTokens_grouped hbalanced, hconverted]

/-- In front of a text in parentheses, a negation sign is added to the program. -/
theorem Accepts.negation_grouped (h : set.Accepts text program) :
    set.Accepts ("~(" ++ text ++ ")") ⟨program.tokens ++ [.operator .not]⟩ := by
  obtain ⟨tokens, e, htokens, hbalanced, hconverted, rfl⟩ := h.exists_tokens
  refine .of_tokens (e := .not e) (tokensOf_negation_grouped htokens) ⟨.operand, rfl⟩
    (hbalanced.group.operator_cons .not) ?_
  rw [Postfix.ofTokens_negation_grouped hbalanced, hconverted]
  rfl

/-- A connective between two texts in parentheses comes behind both programs. -/
theorem Accepts.grouped_connective_grouped {text' : String} {program' : Postfix}
    (h : set.Accepts text program) (h' : set.Accepts text' program') (c : Connective) :
    set.Accepts ("(" ++ text ++ ")" ++ c.char.toString ++ ("(" ++ text' ++ ")"))
      ⟨program.tokens ++ program'.tokens ++ [.operator (.binary c)]⟩ := by
  obtain ⟨tokens, l, htokens, hbalanced, hconverted, rfl⟩ := h.exists_tokens
  obtain ⟨tokens', r, htokens', hbalanced', hconverted', rfl⟩ := h'.exists_tokens
  refine .of_tokens (e := .binary c l r) (tokensOf_grouped_connective_grouped htokens htokens' c)
    ⟨.operand, rfl⟩ (hbalanced.group.append (hbalanced'.group.operator_cons (.binary c))) ?_
  rw [Postfix.ofTokens_grouped_connective_grouped hbalanced hbalanced', hconverted, hconverted']
  rfl

end SymbolSet

/-! ## Values -/

namespace Postfix

variable {p q : Postfix} (v : Valuation)

/-- A program that passes its check has the opposite value with a negation sign behind it. -/
theorem evaluate_append_negation (hp : p.check = .ok ()) :
    evaluate ⟨p.tokens ++ [.operator .not]⟩ v = (p.evaluate v).map not := by
  obtain ⟨e, he⟩ := (check_eq_ok_iff p).1 hp
  obtain rfl : p = ⟨e.postorder⟩ := congrArg mk he
  show evaluate ⟨(Expr.not e).postorder⟩ v = _
  rw [evaluate_postorder, evaluate_postorder, Expr.eval]
  cases e.eval v <;> rfl

/-- Of two programs with a connective behind them, the first is asked first. -/
theorem evaluate_append_connective (hp : p.check = .ok ()) (hq : q.check = .ok ()) (c : Connective) :
    evaluate ⟨p.tokens ++ q.tokens ++ [.operator (.binary c)]⟩ v = (do
      let a ← p.evaluate v
      let b ← q.evaluate v
      return c.apply a b) := by
  obtain ⟨l, hl⟩ := (check_eq_ok_iff p).1 hp
  obtain ⟨r, hr⟩ := (check_eq_ok_iff q).1 hq
  obtain rfl : p = ⟨l.postorder⟩ := congrArg mk hl
  obtain rfl : q = ⟨r.postorder⟩ := congrArg mk hr
  show evaluate ⟨(Expr.binary c l r).postorder⟩ v = _
  rw [evaluate_postorder, evaluate_postorder, evaluate_postorder, Expr.eval]
  cases l.eval v with
  | error cause => rfl
  | ok a => cases r.eval v <;> rfl

end Postfix

namespace Session

/-- An accepted text has the value of its program, where a cause names the text. -/
theorem evaluate_of_accepts (s : Session) {text : String} {program : Postfix}
    (h : s.symbols.Accepts text program) (v : Valuation) :
    s.evaluate text v = (program.evaluate v).mapError (.malformed text) := by
  simp only [s.evaluate_eq_program h.converted, h.judged, h.checked]

/-- Conversion goes by the parts of a text, whatever texts they are, as long as they are accepted. In
    parentheses a text keeps its program, a negation sign in front of it or a connective between two such
    texts is added behind the programs, and the texts made in this way are accepted in turn. So under every
    valuation they have the value of the text, the opposite value, and the values joined by the connective;
    where a part has no value, the cause is that of the part, or of the left one if neither has a value. -/
theorem conversion_is_compositional {set : SymbolSet} {f g : String} {p q : Postfix}
    (hf : set.Accepts f p) (hg : set.Accepts g q) :
    set.Accepts ("(" ++ f ++ ")") p ∧
    set.Accepts ("~(" ++ f ++ ")") ⟨p.tokens ++ [.operator .not]⟩ ∧
    (∀ c : Connective, set.Accepts ("(" ++ f ++ ")" ++ c.char.toString ++ ("(" ++ g ++ ")"))
      ⟨p.tokens ++ q.tokens ++ [.operator (.binary c)]⟩) ∧
    ∀ s : Session, s.symbols = set → ∀ v,
      s.evaluate f v = (p.evaluate v).mapError (.malformed f) ∧
      s.evaluate g v = (q.evaluate v).mapError (.malformed g) ∧
      s.evaluate ("(" ++ f ++ ")") v = (p.evaluate v).mapError (.malformed ("(" ++ f ++ ")")) ∧
      s.evaluate ("~(" ++ f ++ ")") v =
        ((p.evaluate v).map not).mapError (.malformed ("~(" ++ f ++ ")")) ∧
      ∀ c : Connective, s.evaluate ("(" ++ f ++ ")" ++ c.char.toString ++ ("(" ++ g ++ ")")) v =
        (do
          let a ← p.evaluate v
          let b ← q.evaluate v
          return c.apply a b : Except Malformed Bool).mapError
            (.malformed ("(" ++ f ++ ")" ++ c.char.toString ++ ("(" ++ g ++ ")"))) := by
  refine ⟨hf.grouped, hf.negation_grouped, hf.grouped_connective_grouped hg, ?_⟩
  rintro s rfl v
  refine ⟨s.evaluate_of_accepts hf v, s.evaluate_of_accepts hg v, s.evaluate_of_accepts hf.grouped v,
    ?_, fun c => ?_⟩
  · rw [s.evaluate_of_accepts hf.negation_grouped, Postfix.evaluate_append_negation v hf.checked]
  · rw [s.evaluate_of_accepts (hf.grouped_connective_grouped hg c),
      Postfix.evaluate_append_connective v hf.checked hg.checked]

/-- Two texts with their operators behind the operands are parts like any other. The connective asks the
    left one first, which has a value here. -/
theorem conversion_is_compositional_of_odd_texts :
    ∃ (s : Session) (p q : Postfix), SymbolSet.ofList ["p", "q"] = .ok s.symbols ∧
      s.symbols.Accepts "p~" p ∧ s.symbols.Accepts "pq^" q ∧
      s.symbols.Accepts "(p~)>(pq^)" ⟨p.tokens ++ q.tokens ++ [.operator (.binary .implies)]⟩ ∧
      s.evaluate "~(p~)" (.ofPairs [('p', true)]) = .ok true ∧
      s.evaluate "(p~)>(pq^)" (.ofPairs [('p', true)]) =
        .error (.malformed "(p~)>(pq^)" (.unassigned 'q')) := by
  let s : Session := {
    symbols := { names := ['p', 'q']
                 distinct := by decide
                 usable := List.forall_mem_cons.2 ⟨rfl, List.forall_mem_singleton.2 rfl⟩
                 nonempty := by decide
                 few := by decide }
    formulas := [] }
  have hp : s.symbols.Accepts "p~" ⟨[.symbol ⟨'p', 0⟩, .operator .not]⟩ := ⟨rfl, rfl, rfl⟩
  have hq : s.symbols.Accepts "pq^"
    ⟨[.symbol ⟨'p', 0⟩, .symbol ⟨'q', 1⟩, .operator (.binary .and)]⟩ := ⟨rfl, rfl, rfl⟩
  obtain ⟨-, -, hjoined, hvalue⟩ := conversion_is_compositional hp hq
  obtain ⟨-, -, -, hnegated, hboth⟩ := hvalue s rfl (.ofPairs [('p', true)])
  exact ⟨s, _, _, rfl, hp, hq, hjoined .implies, hnegated, hboth .implies⟩

end Session

end TruthTables
