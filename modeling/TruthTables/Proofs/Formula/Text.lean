import TruthTables.Formula.Text
import TruthTables.Proofs.Grammar.Alternation
import TruthTables.Proofs.SymbolSet.Reading

set_option autoImplicit false

/-! # Judging a text by its tokens

Judging a text and taking it apart both look at the significant characters, one for each token. So what
`checkText` says about a text can be said about the tokens: `checkText_eq_ok_iff` does so, for every text
that has tokens at all, and a text has tokens exactly when every significant character is known. The
tokens of a formula pass: they alternate, so the first one can begin a formula, and they are balanced.

Going the other way, characters that write tokens (`Writes`) are put together piece by piece. -/

namespace TruthTables

namespace Token

/-- No token is written with a blank, unless a symbol has one as its name. -/
theorem isBlank_char {t : Token} (h : ∀ s, t = .symbol s → Text.isBlank s.name = false) :
    Text.isBlank t.char = false := by
  cases t with
  | symbol s => exact h s rfl
  | opening => decide
  | closing => decide
  | operator o =>
      cases o with
      | not => decide
      | binary c => cases c <;> decide

end Token

namespace SymbolSet

variable (s : SymbolSet)

/-! ## Single characters -/

theorem contains_eq_false_of_not_isUsable {c : Char} (h : ¬ isUsable c = true) :
    s.contains c = false := by
  rw [← Bool.not_eq_true, contains, List.contains_iff_mem]
  intro hmem
  exact h (s.usable c hmem)

theorem contains_eq_false_of_isBlank {c : Char} (h : Text.isBlank c = true) :
    s.contains c = false :=
  s.contains_eq_false_of_not_isUsable (by simp [isUsable, h])

theorem contains_eq_false_of_isReserved {c : Char} (h : isReserved c = true) :
    s.contains c = false :=
  s.contains_eq_false_of_not_isUsable (by simp [isUsable, h])

/-- A declared name is no blank and not reserved. -/
theorem usable_of_contains {c : Char} (h : s.contains c = true) :
    Text.isBlank c = false ∧ isReserved c = false :=
  isUsable_iff.1 (s.usable c (List.contains_iff_mem.1 h))

theorem get?_eq_none_of_not_contains {c : Char} (h : s.contains c = false) : s.get? c = none := by
  rw [contains_eq_isSome_get?] at h
  simpa using h

theorem token?_operator (o : Operator) : s.token? o.char = some (.operator o) := by
  cases o with
  | binary c => cases c <;> rfl
  | not => rfl

/-- A reserved character writes no symbol, whatever is declared. -/
theorem token?_of_isReserved {c : Char} (h : isReserved c = true) :
    ∃ t, s.token? c = some t ∧ ∀ sym, t ≠ .symbol sym := by
  rcases (isReserved_iff c).1 h with rfl | rfl | ⟨o, ho⟩
  · exact ⟨.opening, rfl, by simp⟩
  · exact ⟨.closing, rfl, by simp⟩
  · rw [← Operator.char_of_ofChar? ho]
    exact ⟨.operator o, s.token?_operator o, by simp⟩

theorem token?_of_not_isReserved {c : Char} (h : isReserved c = false) :
    s.token? c = (s.get? c).map .symbol := by
  have hnot := (not_congr (isReserved_iff c)).1 (by simp [h])
  rw [not_or, not_or, not_exists] at hnot
  obtain ⟨hopen, hclose, hoperator⟩ := hnot
  rw [token?, if_neg hopen, if_neg hclose]
  cases ho : Operator.ofChar? c with
  | none => rfl
  | some o => exact absurd ho (hoperator o)

/-- A character has the same symbol, whether it is looked up directly or by way of its token. -/
theorem token?_bind_symbol? (c : Char) : (s.token? c).bind Token.symbol? = s.get? c := by
  cases hc : isReserved c with
  | true =>
      obtain ⟨t, ht, hsymbol⟩ := s.token?_of_isReserved hc
      rw [ht, s.get?_eq_none_of_not_contains (s.contains_eq_false_of_isReserved hc)]
      cases t with
      | symbol sym => exact absurd rfl (hsymbol sym)
      | _ => rfl
  | false =>
      rw [s.token?_of_not_isReserved hc]
      cases s.get? c <;> rfl

/-- The known characters are those that write a token. -/
theorem isKnown_eq_isSome_token? (c : Char) : s.isKnown c = (s.token? c).isSome := by
  cases hc : isReserved c with
  | false =>
      rw [isKnown, hc, Bool.or_false, s.token?_of_not_isReserved hc, Option.isSome_map,
        contains_eq_isSome_get?]
  | true =>
      obtain ⟨t, ht, -⟩ := s.token?_of_isReserved hc
      rw [isKnown, hc, Bool.or_true, ht]
      rfl

/-- A token is written by its own character. -/
theorem char_of_token? {c : Char} {t : Token} (h : s.token? c = some t) : t.char = c := by
  rw [token?] at h
  split at h
  · next hc => rw [← Option.some.inj h, hc, Token.char]
  · split at h
    · next hc => rw [← Option.some.inj h, hc, Token.char]
    · split at h
      · next o ho => rw [← Option.some.inj h, Token.char, Operator.char_of_ofChar? ho]
      · obtain ⟨sym, hsym, rfl⟩ := Option.map_eq_some_iff.1 h
        obtain ⟨position, -, rfl⟩ := Option.map_eq_some_iff.1 hsym
        rfl

theorem token?_eq_opening_iff {c : Char} {t : Token} (h : s.token? c = some t) :
    c = '(' ↔ t = .opening := by
  constructor
  · rintro rfl
    exact (Option.some.inj h).symm
  · rintro rfl
    exact (s.char_of_token? h).symm

theorem token?_eq_closing_iff {c : Char} {t : Token} (h : s.token? c = some t) :
    c = ')' ↔ t = .closing := by
  constructor
  · rintro rfl
    exact (Option.some.inj h).symm
  · rintro rfl
    exact (s.char_of_token? h).symm

theorem token?_eq_negation_iff {c : Char} {t : Token} (h : s.token? c = some t) :
    c = '~' ↔ t = .operator .not := by
  constructor
  · rintro rfl
    exact (Option.some.inj h).symm
  · rintro rfl
    exact (s.char_of_token? h).symm

/-- The characters that can begin a formula without being declared write the enclosing tokens. -/
theorem canBegin_eq_encloses {c : Char} {t : Token} (h : s.token? c = some t) :
    canBegin c = t.encloses := by
  rw [Bool.eq_iff_iff, canBegin, Bool.or_eq_true, beq_iff_eq, beq_iff_eq,
    s.token?_eq_negation_iff h, s.token?_eq_opening_iff h]
  cases t with
  | operator o => cases o <;> simp [Token.encloses]
  | _ => simp [Token.encloses]

/-- A character can begin a formula exactly when its token can. -/
theorem contains_or_canBegin_iff {c : Char} {t : Token} (h : s.token? c = some t) :
    (s.contains c || canBegin c) = true ↔ ∃ place, Place.next .operand t = some place := by
  have hchar := s.char_of_token? h
  cases t with
  | symbol sym =>
      have hfree : isReserved c = false := by
        cases hc : isReserved c with
        | false => rfl
        | true =>
            obtain ⟨t, ht, hsymbol⟩ := s.token?_of_isReserved hc
            exact absurd (Option.some.inj (ht.symm.trans h)) (hsymbol sym)
      have hcontains : s.contains c = true := by
        rw [contains_eq_isSome_get?, ← Option.isSome_map (f := Token.symbol),
          ← s.token?_of_not_isReserved hfree, h]
        rfl
      rw [hcontains, Bool.true_or]
      exact ⟨fun _ => ⟨.operator, rfl⟩, fun _ => rfl⟩
  | operator o =>
      subst hchar
      rw [Token.char, s.contains_eq_false_of_isReserved (isReserved_operator o), Bool.false_or]
      cases o with
      | not => exact ⟨fun _ => ⟨.operand, rfl⟩, fun _ => rfl⟩
      | binary c => cases c <;> simp [Place.next, Operator.char, Connective.char, canBegin]
  | opening =>
      subst hchar
      rw [Token.char, s.contains_eq_false_of_isReserved rfl, Bool.false_or]
      exact ⟨fun _ => ⟨.operand, rfl⟩, fun _ => rfl⟩
  | closing =>
      subst hchar
      rw [Token.char, s.contains_eq_false_of_isReserved rfl, Bool.false_or]
      simp [Place.next, canBegin]

/-! ## Significant characters -/

/-- A significant character is a character of the text and no blank. -/
theorem char_of_mem_significant {text : List Char} {entry : Char × Nat} (h : entry ∈ significant text) :
    entry.1 ∈ text ∧ Text.isBlank entry.1 = false := by
  obtain ⟨hmem, hblank⟩ := List.mem_filter.1 h
  exact ⟨List.fst_mem_of_mem_zipIdx hmem, by simpa using hblank⟩

/-- Without their positions, the significant characters are what remains without the blanks. -/
theorem map_fst_significant (cs : List Char) :
    (significant cs).map Prod.fst = cs.filter fun c => !Text.isBlank c := by
  rw [significant, ← List.zipIdx_map_fst 0 cs, List.filter_map, List.zipIdx_map_fst]
  rfl

theorem tokensOfSignificant_cons_eq_ok_iff (c : Char) (position : Nat)
    (chars : List (Char × Nat)) (tokens : List Token) :
    s.tokensOfSignificant ((c, position) :: chars) = .ok tokens ↔
      ∃ t rest, s.token? c = some t ∧ s.tokensOfSignificant chars = .ok rest ∧
        tokens = t :: rest := by
  rw [tokensOfSignificant]
  cases s.token? c with
  | none => simp
  | some t =>
      cases s.tokensOfSignificant chars with
      | error fault => simp [Except.map]
      | ok rest => simp [Except.map, eq_comm]

theorem tokensOfSignificant_eq_ok_iff (chars : List (Char × Nat)) (tokens : List Token) :
    s.tokensOfSignificant chars = .ok tokens ↔
      (chars.map Prod.fst).map s.token? = tokens.map some := by
  induction chars generalizing tokens with
  | nil => simp [tokensOfSignificant]
  | cons entry chars ih =>
      obtain ⟨c, position⟩ := entry
      rw [tokensOfSignificant_cons_eq_ok_iff]
      constructor
      · rintro ⟨t, rest, ht, hrest, rfl⟩
        rw [List.map_cons, List.map_cons, ht, (ih rest).1 hrest, List.map_cons]
      · intro h
        obtain ⟨t, rest, rfl, ht, hrest⟩ := List.map_eq_cons_iff.1 h.symm
        exact ⟨t, rest, ht.symm, (ih rest).2 hrest.symm, rfl⟩

/-- Characters have tokens exactly when all of them are known. -/
theorem exists_tokensOfSignificant_iff (chars : List (Char × Nat)) :
    (∃ tokens, s.tokensOfSignificant chars = .ok tokens) ↔
      ∀ entry ∈ chars, s.isKnown entry.1 = true := by
  induction chars with
  | nil => exact ⟨fun _ entry hentry => absurd hentry (by simp), fun _ => ⟨[], rfl⟩⟩
  | cons entry chars ih =>
      obtain ⟨c, position⟩ := entry
      rw [List.forall_mem_cons, ← ih, isKnown_eq_isSome_token?, Option.isSome_iff_exists]
      constructor
      · rintro ⟨tokens, h⟩
        obtain ⟨t, rest, ht, hrest, -⟩ :=
          (s.tokensOfSignificant_cons_eq_ok_iff c position chars tokens).1 h
        exact ⟨⟨t, ht⟩, rest, hrest⟩
      · rintro ⟨⟨t, ht⟩, rest, hrest⟩
        exact ⟨t :: rest, (s.tokensOfSignificant_cons_eq_ok_iff c position chars _).2
          ⟨t, rest, ht, hrest, rfl⟩⟩

theorem checkBalance_cons (depth : Nat) (c : Char) (position : Nat) (chars : List (Char × Nat)) :
    checkBalance depth ((c, position) :: chars) =
      if c = '(' then checkBalance (depth + 1) chars
      else if c = ')' then
        match depth with
        | 0 => .error (.frontLoaded position)
        | depth + 1 => checkBalance depth chars
      else checkBalance depth chars := by
  cases depth <;> rfl

/-- The parentheses of a text are those of its tokens. -/
theorem checkBalance_eq_ok_iff {chars : List (Char × Nat)} {tokens : List Token}
    (h : s.tokensOfSignificant chars = .ok tokens) (depth : Nat) :
    checkBalance depth chars = .ok () ↔ tokens.foldlM nest depth = some 0 := by
  induction chars generalizing tokens depth with
  | nil =>
      cases h
      cases depth <;> simp [checkBalance]
  | cons entry chars ih =>
      obtain ⟨c, position⟩ := entry
      obtain ⟨t, rest, ht, hrest, rfl⟩ :=
        (s.tokensOfSignificant_cons_eq_ok_iff c position chars tokens).1 h
      rw [checkBalance_cons, List.foldlM_cons]
      by_cases hopen : c = '('
      · rw [if_pos hopen, ih hrest, (s.token?_eq_opening_iff ht).1 hopen]
        rfl
      · rw [if_neg hopen]
        by_cases hclose : c = ')'
        · rw [if_pos hclose, (s.token?_eq_closing_iff ht).1 hclose]
          cases depth with
          | zero => simp [nest]
          | succ depth => exact ih hrest depth
        · rw [if_neg hclose, ih hrest]
          have hnest : nest depth t = some depth := by
            cases t with
            | symbol sym => cases depth <;> rfl
            | operator o => cases depth <;> rfl
            | opening => exact absurd ((s.token?_eq_opening_iff ht).2 rfl) hopen
            | closing => exact absurd ((s.token?_eq_closing_iff ht).2 rfl) hclose
          rw [hnest]
          rfl

/-! ## Texts -/

variable {s}

/-- The tokens of a text are written by its characters, apart from blanks. -/
theorem tokensOf_eq_ok_iff {formula : String} {tokens : List Token} :
    s.tokensOf formula = .ok tokens ↔
      (formula.toList.filter fun c => !Text.isBlank c).map s.token? = tokens.map some := by
  rw [tokensOf, tokensOfSignificant_eq_ok_iff, map_fst_significant]

/-- A text has tokens exactly when every significant character is known. -/
theorem exists_tokensOf_iff (formula : String) :
    (∃ tokens, s.tokensOf formula = .ok tokens) ↔
      ∀ entry ∈ significant formula.toList, s.isKnown entry.1 = true :=
  s.exists_tokensOfSignificant_iff _

/-- A text is in order exactly when its first token can begin a formula and the tokens are balanced. -/
theorem checkText_eq_ok_iff {formula : String} {tokens : List Token}
    (h : s.tokensOf formula = .ok tokens) :
    s.checkText formula = .ok () ↔ Begins tokens ∧ Balanced tokens := by
  have hknown := (exists_tokensOf_iff formula).1 ⟨tokens, h⟩
  rw [tokensOf] at h
  have hfind : (significant formula.toList).find? (fun entry => !s.isKnown entry.1) = none := by
    rw [List.find?_eq_none]
    intro entry hentry
    simp [hknown entry hentry]
  unfold checkText checkSignificant
  rw [hfind]
  cases hchars : significant formula.toList with
  | nil =>
      rw [hchars] at h
      cases h
      simp [Begins]
  | cons entry chars =>
      obtain ⟨c, position⟩ := entry
      rw [hchars] at h
      have hbalance := s.checkBalance_eq_ok_iff h 0
      obtain ⟨t, rest, ht, -, rfl⟩ :=
        (s.tokensOfSignificant_cons_eq_ok_iff c position chars tokens).1 h
      have hbegin : (s.contains c || canBegin c) = true ↔ Begins (t :: rest) :=
        s.contains_or_canBegin_iff ht
      rw [← hbegin, Balanced, ← hbalance]
      simp only
      by_cases hc : (s.contains c || canBegin c) = true
      · rw [if_pos hc]
        cases checkBalance 0 ((c, position) :: chars) with
        | error imbalance => simp
        | ok _ => exact ⟨fun _ => ⟨hc, rfl⟩, fun _ => rfl⟩
      · rw [if_neg hc]
        exact ⟨fun hfault => absurd hfault (by simp), fun hok => absurd hok.1 hc⟩

/-- The tokens enclose no more than the signs of the text do. -/
theorem countP_encloses_le {formula : String} {tokens : List Token}
    (h : s.tokensOf formula = .ok tokens) :
    tokens.countP Token.encloses ≤ formula.toList.countP canBegin := by
  -- blanks are no signs, so the inequality comes from leaving them out
  have hchars : ∀ (chars : List (Char × Nat)) (tokens : List Token),
      s.tokensOfSignificant chars = .ok tokens →
        tokens.countP Token.encloses = (chars.map Prod.fst).countP canBegin := by
    intro chars
    induction chars with
    | nil =>
        intro tokens h
        cases h
        rfl
    | cons entry chars ih =>
        intro tokens h
        obtain ⟨c, position⟩ := entry
        obtain ⟨t, rest, ht, hrest, rfl⟩ :=
          (s.tokensOfSignificant_cons_eq_ok_iff c position chars tokens).1 h
        rw [List.map_cons, List.countP_cons, List.countP_cons, ih rest hrest,
          s.canBegin_eq_encloses ht]
  calc tokens.countP Token.encloses
    _ = ((significant formula.toList).map Prod.fst).countP canBegin := hchars _ tokens h
    _ ≤ (formula.toList.zipIdx.map Prod.fst).countP canBegin :=
        (List.filter_sublist.map Prod.fst).countP_le
    _ = formula.toList.countP canBegin := by rw [List.zipIdx_map_fst]

/-! ## Writing tokens -/

/-- Characters that write tokens, with blanks between them. -/
def Writes (set : SymbolSet) (cs : List Char) (tokens : List Token) : Prop :=
  (cs.filter fun c => !Text.isBlank c).map set.token? = tokens.map some

theorem Writes.append {cs ds : List Char} {tokens tokens' : List Token} (h : s.Writes cs tokens)
    (h' : s.Writes ds tokens') : s.Writes (cs ++ ds) (tokens ++ tokens') := by
  unfold Writes at h h' ⊢
  rw [List.filter_append, List.map_append, h, h', List.map_append]

theorem writes_singleton {c : Char} {t : Token} (hblank : Text.isBlank c = false)
    (h : s.token? c = some t) : s.Writes [c] [t] := by
  simp [Writes, hblank, h]

theorem writes_space : s.Writes [' '] [] := by
  have hspace : Text.isBlank ' ' = true := by decide
  simp [Writes, hspace]

theorem Writes.tokensOf_eq {cs : List Char} {tokens : List Token} (h : s.Writes cs tokens) :
    s.tokensOf (String.ofList cs) = .ok tokens := by
  rw [tokensOf_eq_ok_iff, String.toList_ofList]
  exact h

theorem isUsable_of_mem_symbols {sym : Symbol} (h : sym ∈ s.symbols) : isUsable sym.name = true :=
  s.usable _ (List.mem_of_getElem? (mem_symbols_iff.1 h))

/-- A token over the declared symbols is read from the character that writes it. -/
theorem token?_char {t : Token} (h : ∀ sym, t = .symbol sym → sym ∈ s.symbols) :
    s.token? t.char = some t := by
  cases t with
  | opening => rfl
  | closing => rfl
  | operator o => exact s.token?_operator o
  | symbol sym =>
      obtain ⟨-, hreserved⟩ := isUsable_iff.1 (isUsable_of_mem_symbols (h sym rfl))
      show s.token? sym.name = some (.symbol sym)
      rw [s.token?_of_not_isReserved hreserved, get?_name (h sym rfl)]
      rfl

/-- Tokens over the declared symbols are written by their characters. -/
theorem writes_map_char {tokens : List Token} (h : ∀ sym, .symbol sym ∈ tokens → sym ∈ s.symbols) :
    s.Writes (tokens.map Token.char) tokens := by
  induction tokens with
  | nil => rfl
  | cons t rest ih =>
      have hfirst : ∀ sym, t = .symbol sym → sym ∈ s.symbols := by
        rintro sym rfl
        exact h sym (List.mem_cons_self ..)
      have hrest : ∀ sym, .symbol sym ∈ rest → sym ∈ s.symbols := by
        intro sym hsym
        exact h sym (List.mem_cons_of_mem _ hsym)
      have hblank : Text.isBlank t.char = false := by
        apply Token.isBlank_char
        intro sym hsym
        exact (isUsable_iff.1 (isUsable_of_mem_symbols (hfirst sym hsym))).1
      exact (writes_singleton hblank (token?_char hfirst)).append (ih hrest)

/-- A text in two parts has the tokens of both. -/
theorem tokensOf_append {text text' : String} {tokens tokens' : List Token}
    (h : s.tokensOf text = .ok tokens) (h' : s.tokensOf text' = .ok tokens') :
    s.tokensOf (text ++ text') = .ok (tokens ++ tokens') := by
  rw [tokensOf_eq_ok_iff, String.toList_append]
  exact Writes.append (tokensOf_eq_ok_iff.1 h) (tokensOf_eq_ok_iff.1 h')

end SymbolSet

/-- The text of a formula is in order. -/
theorem Derives.checkText_eq_ok {s : SymbolSet} {formula : String} {tokens : List Token} {e : Expr}
    (h : Derives tokens e) (htokens : s.tokensOf formula = .ok tokens) :
    s.checkText formula = .ok () := by
  obtain ⟨halternates, hbalanced⟩ := (exists_derives_iff tokens).1 ⟨e, h⟩
  exact (SymbolSet.checkText_eq_ok_iff htokens).2 ⟨halternates.begins, hbalanced⟩

end TruthTables
