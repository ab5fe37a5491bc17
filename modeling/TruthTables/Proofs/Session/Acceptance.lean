import TruthTables.Proofs.Expr.Text
import TruthTables.Proofs.Postfix.Machine
import TruthTables.Session

set_option autoImplicit false

/-! # What a session accepts

A `Formula` carries the proofs that its text was converted and its program checked. So a text cannot be
rejected once there is a formula with this text, and the functions that build formulas and sessions
are described by the texts of their results (`Formula.ofJudgedText_eq_ok_iff` and those behind it).

The texts whose tokens derive from the grammar are accepted at any depth, and their programs are the
post-order listings of their trees. The reverse fails. A session looks at the first character, at the
parentheses and at the converted tokens, and conversion forgets at which place an operator or a group
stood. `Disguised` says which tokens pass for a formula in this way; all of them put an operand where an
operator belongs, or the reverse. One way to get some is to write `~` behind any formula. -/

namespace TruthTables

/-! ## Formulas and sessions by their texts -/

theorem SymbolSet.checkTexts_eq_ok_iff (set : SymbolSet) (texts : List String) :
    set.checkTexts texts = .ok () ↔ ∀ text ∈ texts, set.checkText text = .ok () := by
  induction texts with
  | nil => simp [checkTexts]
  | cons text rest ih =>
      rw [checkTexts, List.forall_mem_cons]
      cases set.checkText text with
      | error fault => simp
      | ok _ => simpa using ih

namespace Formula

variable {set : SymbolSet}

/-- The program of a formula is the conversion of its tokens. -/
theorem program_eq (f : Formula set) {tokens : List Token}
    (h : set.tokensOf f.text = .ok tokens) : f.program = Postfix.ofTokens tokens := by
  obtain ⟨tokens', htokens', hprogram⟩ := Postfix.ofText_eq_ok_iff.1 f.converted
  rw [hprogram, Except.ok.inj (htokens'.symm.trans h)]

/-- Formulas are told apart by their texts. -/
theorem text_inj {f g : Formula set} (h : f.text = g.text) : f = g := by
  obtain ⟨text, program, converted, checked⟩ := f
  obtain ⟨text', program', converted', checked'⟩ := g
  cases h
  cases converted.symm.trans converted'
  rfl

/-- The texts of formulas are those with a program that passes its check. -/
theorem exists_text_eq_iff_program (text : String) :
    (∃ f : Formula set, f.text = text) ↔
      ∃ program, Postfix.ofText set text = .ok program ∧ program.check = .ok () := by
  constructor
  · rintro ⟨f, rfl⟩
    exact ⟨f.program, f.converted, f.checked⟩
  · rintro ⟨program, hconverted, hchecked⟩
    exact ⟨⟨text, program, hconverted, hchecked⟩, rfl⟩

/-- The texts of formulas are those whose tokens are converted to a program that leaves one value. -/
theorem exists_text_eq_iff (text : String) :
    (∃ f : Formula set, f.text = text) ↔
      ∃ tokens, set.tokensOf text = .ok tokens ∧ (Postfix.ofTokens tokens).check = .ok () := by
  simp only [exists_text_eq_iff_program, Postfix.ofText_eq_ok_iff]
  constructor
  · rintro ⟨program, ⟨tokens, htokens, rfl⟩, hcheck⟩
    exact ⟨tokens, htokens, hcheck⟩
  · rintro ⟨tokens, htokens, hcheck⟩
    exact ⟨_, ⟨tokens, htokens, rfl⟩, hcheck⟩

theorem ofJudgedText_eq_ok_iff (text : String) (f : Formula set) :
    ofJudgedText set text = .ok f ↔ f.text = text := by
  constructor
  · intro h
    unfold ofJudgedText at h
    split at h
    · exact absurd h (by simp)
    · split at h
      · exact absurd h (by simp)
      · rw [← Except.ok.inj h]
  · -- the proofs that the formula carries rule the rejections out
    rintro rfl
    unfold ofJudgedText
    split
    · next fault hfault => exact absurd (hfault.symm.trans f.converted) (by simp)
    · next program hprogram =>
        have heq : program = f.program := Except.ok.inj (hprogram.symm.trans f.converted)
        split
        · next cause hcause =>
            rw [heq, f.checked] at hcause
            exact absurd hcause (by simp)
        · exact congrArg Except.ok (text_inj rfl)

theorem ofText_eq_ok_iff (text : String) (f : Formula set) :
    ofText set text = .ok f ↔ set.checkText text = .ok () ∧ f.text = text := by
  rw [ofText, ← ofJudgedText_eq_ok_iff]
  cases set.checkText text with
  | error fault => simp
  | ok _ => simp

theorem ofJudgedTexts_eq_ok_iff (texts : List String) (fs : List (Formula set)) :
    ofJudgedTexts set texts = .ok fs ↔ fs.map text = texts := by
  induction texts generalizing fs with
  | nil =>
      rw [ofJudgedTexts, Except.ok.injEq, List.map_eq_nil_iff]
      exact eq_comm
  | cons text rest ih =>
      rw [ofJudgedTexts]
      cases hfirst : ofJudgedText set text with
      | error rejection =>
          have hnone : ∀ f : Formula set, f.text ≠ text := by
            intro f hf
            rw [(ofJudgedText_eq_ok_iff text f).2 hf] at hfirst
            exact absurd hfirst (by simp)
          cases fs with
          | nil => simp
          | cons f fs => simp [hnone f]
      | ok f =>
          have hf := (ofJudgedText_eq_ok_iff text f).1 hfirst
          constructor
          · intro h
            cases hrest : ofJudgedTexts set rest with
            | error rejection =>
                rw [hrest] at h
                exact absurd h (by simp [Except.map])
            | ok fs' =>
                rw [hrest] at h
                cases h
                rw [List.map_cons, hf, (ih fs').1 hrest]
          · intro h
            obtain ⟨f', fs', rfl, hf', hfs'⟩ := List.map_eq_cons_iff.1 h
            rw [(ih fs').2 hfs', text_inj (hf.trans hf'.symm)]
            rfl

/-- Where each text has a formula, the texts have formulas together. -/
theorem exists_map_text_eq_iff (texts : List String) :
    (∃ fs : List (Formula set), fs.map text = texts) ↔
      ∀ text ∈ texts, ∃ f : Formula set, f.text = text := by
  constructor
  · rintro ⟨fs, rfl⟩ text htext
    obtain ⟨f, -, hf⟩ := List.mem_map.1 htext
    exact ⟨f, hf⟩
  · intro h
    induction texts with
    | nil => exact ⟨[], rfl⟩
    | cons text rest ih =>
        obtain ⟨⟨f, hf⟩, hrest⟩ := List.forall_mem_cons.1 h
        obtain ⟨fs, hfs⟩ := ih hrest
        exact ⟨f :: fs, by rw [List.map_cons, hf, hfs]⟩

end Formula

namespace Session

section

variable {entries : List String} {set : SymbolSet} (hset : SymbolSet.ofList entries = .ok set)
include hset

theorem ofTexts_eq_ok_iff (texts : List String) (s : Session) :
    ofTexts entries texts = .ok s ↔
      ∃ fs : List (Formula set), s = ⟨set, fs⟩ ∧
        (∀ text ∈ texts, set.checkText text = .ok ()) ∧ fs.map Formula.text = texts := by
  rw [ofTexts, judge, hset, ← set.checkTexts_eq_ok_iff]
  simp only [← Formula.ofJudgedTexts_eq_ok_iff]
  cases set.checkTexts texts with
  | error fault => simp
  | ok _ =>
      cases hfs : Formula.ofJudgedTexts set texts with
      | error rejection => simp [hfs]
      | ok fs => simp [hfs, eq_comm]

/-- A session accepts the texts that are in order and have a formula. -/
theorem exists_ofTexts_iff (texts : List String) :
    (∃ s, ofTexts entries texts = .ok s) ↔
      ∀ text ∈ texts, set.checkText text = .ok () ∧ ∃ f : Formula set, f.text = text := by
  simp only [ofTexts_eq_ok_iff hset, forall_and, ← Formula.exists_map_text_eq_iff]
  constructor
  · rintro ⟨s, fs, -, hcheck, hfs⟩
    exact ⟨hcheck, fs, hfs⟩
  · rintro ⟨hcheck, fs, hfs⟩
    exact ⟨⟨set, fs⟩, fs, rfl, hcheck, hfs⟩

end

/-! ## Grammatical texts -/

/-- Conversion agrees with the grammar on the order of operations, and the grammar is accepted, both at
    any depth. The tokens of a formula are converted to the post-order listing of its tree, whose check
    passes. In particular the two front ends agree wherever the parser answers, and a session is built
    from whatever texts are grammatical. -/
theorem conversion_follows_grammar :
    (∀ tokens e, Derives tokens e →
      Postfix.ofTokens tokens = ⟨e.postorder⟩ ∧ (Postfix.ofTokens tokens).check = .ok ()) ∧
    (∀ tokens e, Expr.ofTokens tokens = .ok e → Postfix.ofTokens tokens = ⟨e.postorder⟩) ∧
    ∀ entries set texts, SymbolSet.ofList entries = .ok set →
      (∀ text ∈ texts, ∃ tokens e, set.tokensOf text = .ok tokens ∧ Derives tokens e) →
        ∃ s, ofTexts entries texts = .ok s ∧ s.symbols = set ∧ s.texts = texts := by
  refine ⟨fun tokens e h => ⟨h.ofTokens_eq, h.check_eq_ok⟩,
    fun tokens e h => (Derives.of_ofTokens h).ofTokens_eq, ?_⟩
  intro entries set texts hset hgrammatical
  have hcheck : ∀ text ∈ texts, set.checkText text = .ok () := by
    intro text htext
    obtain ⟨tokens, e, htokens, h⟩ := hgrammatical text htext
    exact h.checkText_eq_ok htokens
  have hformula : ∀ text ∈ texts, ∃ f : Formula set, f.text = text := by
    intro text htext
    obtain ⟨tokens, e, htokens, h⟩ := hgrammatical text htext
    exact (Formula.exists_text_eq_iff text).2 ⟨tokens, htokens, h.check_eq_ok⟩
  obtain ⟨fs, hfs⟩ := (Formula.exists_map_text_eq_iff texts).2 hformula
  exact ⟨⟨set, fs⟩, (ofTexts_eq_ok_iff hset texts _).2 ⟨fs, rfl, hcheck, hfs⟩, rfl, hfs⟩

/-- Stacked negation signs, groups and all precedences in one text. -/
theorem conversion_follows_grammar_in_session :
    ∃ s, ofTexts ["p", "q"] ["p>~~(q|p)^q"] = .ok s ∧ s.texts = ["p>~~(q|p)^q"] := by
  obtain ⟨s, hs, -, htexts⟩ :=
    conversion_follows_grammar.2.2 ["p", "q"] _ ["p>~~(q|p)^q"] rfl (by
      intro text htext
      cases List.mem_singleton.1 htext
      obtain ⟨e, he⟩ := (exists_derives_iff [.symbol ⟨'p', 0⟩, .operator (.binary .implies),
        .operator .not, .operator .not, .opening, .symbol ⟨'q', 1⟩, .operator (.binary .or),
        .symbol ⟨'p', 0⟩, .closing, .operator (.binary .and), .symbol ⟨'q', 1⟩]).2
        ⟨by decide, by decide⟩
      exact ⟨_, e, rfl, he⟩)
  exact ⟨s, hs, htexts⟩

/-! ## Texts that are no formulas -/

/-- The tokens begin like a formula, are balanced, and are converted to the post-order listing of a
    tree. -/
def Passes (tokens : List Token) : Prop :=
  Begins tokens ∧ Balanced tokens ∧ ∃ e : Expr, (Postfix.ofTokens tokens).tokens = e.postorder

/-- The tokens pass for a formula, but operands and operators do not take turns. -/
def Disguised (tokens : List Token) : Prop :=
  Passes tokens ∧ ¬ Alternates tokens

theorem passes_of_alternates {tokens : List Token} (halternates : Alternates tokens)
    (hbalanced : Balanced tokens) : Passes tokens := by
  obtain ⟨e, hderives⟩ := (exists_derives_iff tokens).2 ⟨halternates, hbalanced⟩
  exact ⟨halternates.begins, hbalanced, e, by rw [hderives.ofTokens_eq]⟩

/-- A negation sign behind a formula goes unnoticed: it is released in front of all that is pending, and
    negates the last operand. -/
theorem disguised_trailing_negation {tokens : List Token} {e : Expr} (h : Derives tokens e) :
    Disguised (tokens ++ [.operator .not]) := by
  obtain ⟨halternates, hbalanced⟩ := (exists_derives_iff tokens).1 ⟨e, h⟩
  refine ⟨⟨?_, ?_, ?_⟩, ?_⟩
  · cases tokens with
    | nil => exact absurd halternates (by decide)
    | cons t rest => exact halternates.begins
  · rw [Balanced, List.foldlM_append, hbalanced]
    rfl
  · -- something was released before the end, for pending operators alone are no program
    have hcheck := h.check_eq_ok
    rw [Pending.ofTokens_eq_append] at hcheck
    have hreleased : Pending.released [] tokens ≠ [] := by
      intro hnil
      rw [hnil, List.nil_append] at hcheck
      exact Postfix.check_operators _ hcheck
    rw [Pending.ofTokens_append_negation]
    exact (Postfix.check_eq_ok_iff _).1 (Postfix.check_insert_negation hcheck hreleased)
  · rw [Alternates, List.foldlM_append, halternates]
    decide

/-- An empty group in front of a formula goes unnoticed. -/
theorem disguised_empty_group {tokens : List Token} {e : Expr} (h : Derives tokens e) :
    Disguised (.opening :: .closing :: tokens) := by
  obtain ⟨-, hbalanced⟩ := (exists_derives_iff tokens).1 ⟨e, h⟩
  refine ⟨⟨⟨.operand, rfl⟩, hbalanced, e, ?_⟩, by simp [Alternates, Place.next]⟩
  show (Postfix.ofTokens tokens).tokens = e.postorder
  rw [h.ofTokens_eq]

theorem exists_ofTexts_singleton_iff {entries : List String} {set : SymbolSet}
    (hset : SymbolSet.ofList entries = .ok set) (text : String) :
    (∃ s, ofTexts entries [text] = .ok s) ↔
      ∃ tokens, set.tokensOf text = .ok tokens ∧ Passes tokens := by
  rw [exists_ofTexts_iff hset, List.forall_mem_singleton, Formula.exists_text_eq_iff]
  constructor
  · rintro ⟨hcheck, tokens, htokens, hprogram⟩
    obtain ⟨hbegins, hbalanced⟩ := (SymbolSet.checkText_eq_ok_iff htokens).1 hcheck
    exact ⟨tokens, htokens, hbegins, hbalanced, (Postfix.check_eq_ok_iff _).1 hprogram⟩
  · rintro ⟨tokens, htokens, hbegins, hbalanced, hprogram⟩
    exact ⟨(SymbolSet.checkText_eq_ok_iff htokens).2 ⟨hbegins, hbalanced⟩, tokens, htokens,
      (Postfix.check_eq_ok_iff _).2 hprogram⟩

/-- Where few signs enclose anything, no symbol is nested too deeply. -/
theorem exists_ofText_iff {set : SymbolSet} {text : String}
    (hfew : text.toList.countP canBegin ≤ nestingLimit) :
    (∃ e, Expr.ofText set text = .ok e) ↔
      ∃ tokens, set.tokensOf text = .ok tokens ∧ Alternates tokens ∧ Balanced tokens := by
  constructor
  · rintro ⟨e, h⟩
    obtain ⟨d, htokens, -, -⟩ := (Expr.ofText_eq_ok_iff e).1 h
    exact ⟨d.tokens, htokens, (exists_derives_iff d.tokens).1 ⟨d.tree, d, rfl, rfl⟩⟩
  · rintro ⟨tokens, htokens, hgrammatical⟩
    obtain ⟨e, d, rfl, htree⟩ := (exists_derives_iff tokens).2 hgrammatical
    refine ⟨e, (Expr.ofText_eq_ok_iff e).2 ⟨d, htokens, htree, fun n hn => ?_⟩⟩
    calc 0 + n
      _ = n := Nat.zero_add n
      _ ≤ d.tokens.countP Token.encloses := d.le_countP_encloses n hn
      _ ≤ text.toList.countP canBegin := SymbolSet.countP_encloses_le htokens
      _ ≤ nestingLimit := hfew

/-- A session and the parser disagree about a text exactly when its tokens are disguised. A session
    accepts every text that has a tree, and a text that it accepts has a tree exactly when operands and
    operators take turns. They do disagree about any formula with a negation sign behind it or an empty
    group in front. -/
theorem ofTexts_agrees_with_parser_iff {entries : List String} {set : SymbolSet} {text : String}
    (hset : SymbolSet.ofList entries = .ok set)
    (hfew : text.toList.countP canBegin ≤ nestingLimit) :
    (((∃ s, ofTexts entries [text] = .ok s) ↔ ∃ e, Expr.ofText set text = .ok e) ↔
      ∀ tokens, set.tokensOf text = .ok tokens → ¬ Disguised tokens) ∧
    ((∃ e, Expr.ofText set text = .ok e) → ∃ s, ofTexts entries [text] = .ok s) ∧
    ((∃ e, Expr.ofText set text = .ok e) ↔ (∃ s, ofTexts entries [text] = .ok s) ∧
      ∃ tokens, set.tokensOf text = .ok tokens ∧ Alternates tokens) ∧
    ∀ tokens e, Derives tokens e →
      set.tokensOf text = .ok (tokens ++ [.operator .not]) ∨
        set.tokensOf text = .ok (.opening :: .closing :: tokens) →
      (∃ s, ofTexts entries [text] = .ok s) ∧ ¬ ∃ e, Expr.ofText set text = .ok e := by
  rw [exists_ofTexts_singleton_iff hset, exists_ofText_iff hfew]
  have hpasses : (∃ tokens, set.tokensOf text = .ok tokens ∧ Alternates tokens ∧ Balanced tokens) →
      ∃ tokens, set.tokensOf text = .ok tokens ∧ Passes tokens := by
    rintro ⟨tokens, htokens, halternates, hbalanced⟩
    exact ⟨tokens, htokens, passes_of_alternates halternates hbalanced⟩
  -- the text has no other tokens, so what is disguised is not read
  have hunread : ∀ tokens, set.tokensOf text = .ok tokens → Disguised tokens →
      ¬ ∃ tokens', set.tokensOf text = .ok tokens' ∧ Alternates tokens' ∧ Balanced tokens' := by
    rintro tokens htokens hdisguised ⟨tokens', htokens', halternates, -⟩
    have heq : tokens' = tokens := Except.ok.inj (htokens'.symm.trans htokens)
    exact hdisguised.2 (heq ▸ halternates)
  refine ⟨⟨?_, fun hplain => ⟨?_, hpasses⟩⟩, hpasses, ⟨?_, ?_⟩, ?_⟩
  · intro hagree tokens htokens hdisguised
    exact hunread tokens htokens hdisguised (hagree.1 ⟨tokens, htokens, hdisguised.1⟩)
  · rintro ⟨tokens, htokens, h⟩
    by_cases halternates : Alternates tokens
    · exact ⟨tokens, htokens, halternates, h.2.1⟩
    · exact absurd ⟨h, halternates⟩ (hplain tokens htokens)
  · rintro ⟨tokens, htokens, h⟩
    exact ⟨hpasses ⟨tokens, htokens, h⟩, tokens, htokens, h.1⟩
  · rintro ⟨⟨tokens, htokens, h⟩, tokens', htokens', halternates⟩
    have heq : tokens' = tokens := Except.ok.inj (htokens'.symm.trans htokens)
    exact ⟨tokens, htokens, heq ▸ halternates, h.2.1⟩
  · rintro tokens e hderives (htokens | htokens)
    · have hdisguised := disguised_trailing_negation hderives
      exact ⟨⟨_, htokens, hdisguised.1⟩, hunread _ htokens hdisguised⟩
    · have hdisguised := disguised_empty_group hderives
      exact ⟨⟨_, htokens, hdisguised.1⟩, hunread _ htokens hdisguised⟩

/-- A formula that begins with a negation sign is no matter of dispute. -/
theorem ofTexts_agrees_with_parser_on_negation :
    ∃ set, SymbolSet.ofList ["p"] = .ok set ∧
      ((∃ s, ofTexts ["p"] ["~p"] = .ok s) ↔ ∃ e, Expr.ofText set "~p" = .ok e) := by
  refine ⟨_, rfl, (ofTexts_agrees_with_parser_iff rfl (by decide)).1.2 ?_⟩
  intro tokens htokens hdisguised
  have heq : [.operator .not, .symbol ⟨'p', 0⟩] = tokens := Except.ok.inj htokens
  rw [← heq] at hdisguised
  exact hdisguised.2 (by decide)

/-- A session takes a trailing negation sign for one in front. -/
theorem ofTexts_accepts_trailing_negation :
    ∃ set, SymbolSet.ofList ["p"] = .ok set ∧
      "p~".toList.countP canBegin ≤ nestingLimit ∧
      (∃ s, ofTexts ["p"] ["p~"] = .ok s) ∧ ¬ ∃ e, Expr.ofText set "p~" = .ok e := by
  have hfew : "p~".toList.countP canBegin ≤ nestingLimit := by decide
  refine ⟨_, rfl, hfew, ?_, ?_⟩
  · rw [exists_ofTexts_singleton_iff rfl]
    exact ⟨[.symbol ⟨'p', 0⟩, .operator .not], rfl, ⟨.operator, rfl⟩, by decide,
      .not (.var ⟨'p', 0⟩), rfl⟩
  · rw [exists_ofText_iff hfew]
    rintro ⟨tokens, htokens, halternates, -⟩
    have heq : [.symbol ⟨'p', 0⟩, .operator .not] = tokens := Except.ok.inj htokens
    rw [← heq] at halternates
    exact absurd halternates (by decide)

end Session

end TruthTables
