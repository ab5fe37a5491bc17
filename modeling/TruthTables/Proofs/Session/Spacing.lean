import TruthTables.Proofs.Session.Construction

set_option autoImplicit false

/-! # Blanks between tokens

Taking a text apart undoes writing tokens down, with whatever blanks before, between and behind them
(`Spaced`). Where it fails, it fails at a character that judging the text complains of as well, before
everything else. Blanks move the places of faults and do nothing besides: two texts that differ in blanks
alone have the same tokens or the same fault, only at another place, and so have all that is built from them
(`Alike`). -/

namespace TruthTables

/-! ## Spelling tokens -/

/-- The characters of the tokens in order, with blanks before, between and behind them. -/
inductive Spaced : List Token → List Char → Prop
  | blanks {cs : List Char} (h : ∀ c ∈ cs, Text.isBlank c = true) : Spaced [] cs
  | token {blanks cs : List Char} {tokens : List Token} (t : Token)
      (h : ∀ c ∈ blanks, Text.isBlank c = true) (rest : Spaced tokens cs) :
      Spaced (t :: tokens) (blanks ++ t.char :: cs)

namespace Spaced

/-- Apart from blanks there is nothing but the tokens. -/
theorem filter_eq {tokens : List Token} {cs : List Char} (h : Spaced tokens cs) :
    (cs.filter fun c => !Text.isBlank c) =
      (tokens.map Token.char).filter fun c => !Text.isBlank c := by
  have hnone : ∀ blanks : List Char, (∀ c ∈ blanks, Text.isBlank c = true) →
      (blanks.filter fun c => !Text.isBlank c) = [] := by
    intro blanks hblanks
    rw [List.filter_eq_nil_iff]
    intro c hc
    simp [hblanks c hc]
  induction h with
  | blanks h => exact hnone _ h
  | token t h rest ih =>
      rw [List.filter_append, hnone _ h, List.nil_append, List.map_cons, List.filter_cons,
        List.filter_cons, ih]

theorem blank_cons {tokens : List Token} {cs : List Char} (h : Spaced tokens cs) {c : Char}
    (hc : Text.isBlank c = true) : Spaced tokens (c :: cs) := by
  cases h with
  | blanks h => exact .blanks (List.forall_mem_cons.2 ⟨hc, h⟩)
  | token t h rest => exact @token (c :: _) _ _ t (List.forall_mem_cons.2 ⟨hc, h⟩) rest

/-- Any characters are tokens with blanks between them, if they are the tokens without the blanks. -/
theorem of_filter_eq {tokens : List Token} {cs : List Char}
    (h : (cs.filter fun c => !Text.isBlank c) = tokens.map Token.char) : Spaced tokens cs := by
  induction cs generalizing tokens with
  | nil =>
      rw [List.filter_nil, eq_comm, List.map_eq_nil_iff] at h
      subst h
      exact .blanks (by simp)
  | cons c cs ih =>
      by_cases hc : Text.isBlank c = true
      · rw [List.filter_cons_of_neg (by simp [hc])] at h
        exact (ih h).blank_cons hc
      · rw [List.filter_cons_of_pos (by simp [hc])] at h
        obtain ⟨t, rest, rfl, rfl, hrest⟩ := List.map_eq_cons_iff.1 h.symm
        exact @token [] _ _ t (by simp) (ih hrest.symm)

end Spaced

namespace SymbolSet

variable {set : SymbolSet}

/-- The position of a declared symbol is that of its name. -/
theorem idxOf?_names {s : Symbol} (h : s ∈ set.symbols) :
    set.names.idxOf? s.name = some s.position := by
  have hfound := get?_name h
  rw [get?] at hfound
  obtain ⟨position, hposition, heq⟩ := Option.map_eq_some_iff.1 hfound
  rw [hposition, ← heq]

/-- A token that is read is written by the character, and its symbol is declared. -/
theorem char_and_mem_symbols_of_token? {c : Char} {t : Token} (h : set.token? c = some t) :
    t.char = c ∧ ∀ s, t = .symbol s → s ∈ set.symbols := by
  refine ⟨set.char_of_token? h, ?_⟩
  rintro s rfl
  have hget := set.token?_bind_symbol? c
  rw [h] at hget
  exact mem_symbols_of_get? hget.symm

theorem map_char_of_map_token? {cs : List Char} {tokens : List Token}
    (h : cs.map set.token? = tokens.map some) :
    cs = tokens.map Token.char ∧ ∀ s, .symbol s ∈ tokens → s ∈ set.symbols := by
  induction tokens generalizing cs with
  | nil =>
      rw [List.map_nil, List.map_eq_nil_iff] at h
      exact ⟨h, by simp⟩
  | cons t tokens ih =>
      obtain ⟨c, rest, rfl, ht, hrest⟩ := List.map_eq_cons_iff.1 h
      obtain ⟨hchar, hfirst⟩ := char_and_mem_symbols_of_token? ht
      obtain ⟨hchars, hothers⟩ := ih hrest
      refine ⟨by rw [List.map_cons, hchar, ← hchars], fun s hs => ?_⟩
      rcases List.mem_cons.1 hs with heq | hmem
      · exact hfirst s heq.symm
      · exact hothers s hmem

/-- The tokens of a text are those over the declared symbols that the text spells. -/
theorem tokensOf_eq_ok_iff_spaced {text : String} {tokens : List Token} :
    set.tokensOf text = .ok tokens ↔
      (∀ s, .symbol s ∈ tokens → s ∈ set.symbols) ∧ Spaced tokens text.toList := by
  rw [tokensOf_eq_ok_iff]
  constructor
  · intro h
    obtain ⟨hchars, hsymbols⟩ := map_char_of_map_token? h
    exact ⟨hsymbols, .of_filter_eq hchars⟩
  · rintro ⟨hsymbols, hspaced⟩
    rw [hspaced.filter_eq]
    exact writes_map_char hsymbols

/-! ## Texts that are no tokens -/

theorem tokensOfSignificant_eq_error_iff (chars : List (Char × Nat)) (fault : FormulaFault) :
    set.tokensOfSignificant chars = .error fault ↔
      ∃ c i, (chars.find? fun entry => !set.isKnown entry.1) = some (c, i) ∧
        fault = .illegalCharacter c i := by
  induction chars with
  | nil => simp [tokensOfSignificant]
  | cons entry chars ih =>
      obtain ⟨c, i⟩ := entry
      have hknown := set.isKnown_eq_isSome_token? c
      rw [tokensOfSignificant]
      cases ht : set.token? c with
      | none =>
          rw [ht, Option.isSome_none] at hknown
          rw [List.find?_cons_of_pos (by simp [hknown])]
          simp [eq_comm]
      | some t =>
          rw [ht, Option.isSome_some] at hknown
          rw [List.find?_cons_of_neg (by simp [hknown]), ← ih]
          cases set.tokensOfSignificant chars <;> simp [Except.map]

theorem checkSignificant_eq_illegalCharacter_iff (chars : List (Char × Nat)) (c : Char) (i : Nat) :
    set.checkSignificant chars = .error (.illegalCharacter c i) ↔
      (chars.find? fun entry => !set.isKnown entry.1) = some (c, i) := by
  unfold checkSignificant
  cases hfind : chars.find? fun entry => !set.isKnown entry.1 with
  | some entry =>
      obtain ⟨d, j⟩ := entry
      simp
  | none =>
      simp only [reduceCtorEq, iff_false]
      split
      · simp
      · split_ifs
        · split <;> simp
        · simp

/-- A text has no tokens for the very fault that judging finds when it finds an unknown character. -/
theorem tokensOf_eq_error_iff (text : String) (fault : FormulaFault) :
    set.tokensOf text = .error fault ↔
      set.checkText text = .error fault ∧ ∃ c i, fault = .illegalCharacter c i := by
  rw [tokensOf, checkText, tokensOfSignificant_eq_error_iff]
  constructor
  · rintro ⟨c, i, hfind, rfl⟩
    exact ⟨(checkSignificant_eq_illegalCharacter_iff _ c i).2 hfind, c, i, rfl⟩
  · rintro ⟨hcheck, c, i, rfl⟩
    exact ⟨c, i, (checkSignificant_eq_illegalCharacter_iff _ c i).1 hcheck, rfl⟩

end SymbolSet

/-! ## Faults without their places -/

/-- The imbalance, wherever it shows. -/
def Imbalance.unplaced : Imbalance → Imbalance
  | .frontLoaded _ => .frontLoaded 0
  | .unclosed groups => .unclosed groups

/-- The fault, wherever it is. -/
def FormulaFault.unplaced : FormulaFault → FormulaFault
  | .empty => .empty
  | .firstCharacter c => .firstCharacter c
  | .illegalCharacter c _ => .illegalCharacter c 0
  | .parentheses imbalance => .parentheses imbalance.unplaced

/-- The rejection, whatever the text. -/
def Rejection.unplaced : Rejection → Rejection
  | .symbols fault => .symbols fault
  | .text _ fault => .text "" fault.unplaced
  | .malformed _ cause => .malformed "" cause

/-- Results that are the same, or rejections that differ in the text and the place in it alone. -/
inductive Alike {α : Type} : Except Rejection α → Except Rejection α → Prop
  | ok (a : α) : Alike (.ok a) (.ok a)
  | error {r r' : Rejection} (h : r.unplaced = r'.unplaced) : Alike (.error r) (.error r')

/-- Where the images are alike, there are two results with the same image, or two rejections that are
    alike. -/
theorem Alike.of_map {α β γ : Type} {f : α → γ} {g : β → γ} {x : Except Rejection α}
    {y : Except Rejection β} (h : Alike (x.map f) (y.map g)) :
    (∃ a b, x = .ok a ∧ y = .ok b ∧ f a = g b) ∨
      ∃ r r', x = .error r ∧ y = .error r' ∧ r.unplaced = r'.unplaced := by
  cases x with
  | ok a =>
      cases y with
      | ok b =>
          refine .inl ⟨a, b, rfl, rfl, ?_⟩
          change Alike (.ok (f a)) (.ok (g b)) at h
          generalize f a = u, g b = w at h ⊢
          cases h
          rfl
      | error r' => cases h
  | error r =>
      cases y with
      | ok b => cases h
      | error r' =>
          cases h with
          | error h => exact .inr ⟨r, r', rfl, rfl, h⟩

theorem checkBalance_unplaced (depth : Nat) (chars : List (Char × Nat)) :
    checkBalance depth (chars.map fun entry => (entry.1, 0)) =
      (checkBalance depth chars).mapError Imbalance.unplaced := by
  induction chars generalizing depth with
  | nil => cases depth <;> rfl
  | cons entry chars ih =>
      obtain ⟨c, i⟩ := entry
      rw [List.map_cons, SymbolSet.checkBalance_cons, SymbolSet.checkBalance_cons]
      by_cases hopening : c = '('
      · rw [if_pos hopening, if_pos hopening, ih]
      · rw [if_neg hopening, if_neg hopening]
        by_cases hclosing : c = ')'
        · rw [if_pos hclosing, if_pos hclosing]
          cases depth with
          | zero => rfl
          | succ depth => exact ih depth
        · rw [if_neg hclosing, if_neg hclosing, ih]

/-- Two texts differ in nothing but blanks. -/
def SameSignificant (text text' : String) : Prop :=
  (text.toList.filter fun c => !Text.isBlank c) = text'.toList.filter fun c => !Text.isBlank c

namespace SymbolSet

variable {set : SymbolSet}

/-- Where the characters stand matters to the place of a fault and to nothing else. -/
theorem checkSignificant_unplaced (chars : List (Char × Nat)) :
    set.checkSignificant (chars.map fun entry => (entry.1, 0)) =
      (set.checkSignificant chars).mapError FormulaFault.unplaced := by
  have hfind : ((chars.map fun entry => (entry.1, 0)).find? fun entry => !set.isKnown entry.1) =
      (chars.find? fun entry => !set.isKnown entry.1).map fun entry => (entry.1, 0) := List.find?_map
  unfold checkSignificant
  rw [hfind, checkBalance_unplaced]
  cases chars.find? fun entry => !set.isKnown entry.1 with
  | some entry => rfl
  | none =>
      cases chars with
      | nil => rfl
      | cons entry rest =>
          obtain ⟨c, i⟩ := entry
          simp only [Option.map_none, List.map_cons]
          split_ifs
          · cases checkBalance 0 ((c, i) :: rest) <;> rfl
          · rfl

theorem checkText_unplaced (set : SymbolSet) {text text' : String} (h : SameSignificant text text') :
    (set.checkText text).mapError FormulaFault.unplaced =
      (set.checkText text').mapError FormulaFault.unplaced := by
  have hchars : ∀ cs : List Char, (significant cs).map (fun entry => (entry.1, 0)) =
      (cs.filter fun c => !Text.isBlank c).map fun c => (c, 0) := by
    intro cs
    rw [← map_fst_significant, List.map_map]
    rfl
  rw [checkText, checkText, ← checkSignificant_unplaced, ← checkSignificant_unplaced, hchars, hchars, h]

end SymbolSet

/-! ## Results without places -/

namespace SameSignificant

variable {set : SymbolSet} {text text' : String}

theorem tokensOf_eq_ok_iff (h : SameSignificant text text') {tokens : List Token} :
    set.tokensOf text = .ok tokens ↔ set.tokensOf text' = .ok tokens := by
  rw [SymbolSet.tokensOf_eq_ok_iff, SymbolSet.tokensOf_eq_ok_iff, h]

theorem ofText_eq_ok_iff (h : SameSignificant text text') {p : Postfix} :
    Postfix.ofText set text = .ok p ↔ Postfix.ofText set text' = .ok p := by
  simp only [Postfix.ofText_eq_ok_iff, h.tokensOf_eq_ok_iff]

/-- Either both texts are in order, or both have a fault, which is the same but for its place. -/
theorem checkText_cases (h : SameSignificant text text') (set : SymbolSet) :
    (set.checkText text = .ok () ∧ set.checkText text' = .ok ()) ∨
    ∃ fault fault', set.checkText text = .error fault ∧ set.checkText text' = .error fault' ∧
      fault.unplaced = fault'.unplaced := by
  have hsame := set.checkText_unplaced h
  cases hcheck : set.checkText text with
  | ok _ =>
      cases hcheck' : set.checkText text' with
      | ok _ => exact .inl ⟨rfl, rfl⟩
      | error fault' =>
          rw [hcheck, hcheck'] at hsame
          exact absurd hsame (by simp [Except.mapError])
  | error fault =>
      cases hcheck' : set.checkText text' with
      | ok _ =>
          rw [hcheck, hcheck'] at hsame
          exact absurd hsame (by simp [Except.mapError])
      | error fault' =>
          rw [hcheck, hcheck'] at hsame
          exact .inr ⟨fault, fault', rfl, rfl, Except.error.inj hsame⟩

end SameSignificant

namespace Formula

variable {set : SymbolSet} {text text' : String}

/-- What becomes of a text in order depends on its program. -/
theorem map_program_ofJudgedText {p : Postfix} (hp : Postfix.ofText set text = .ok p) :
    (ofJudgedText set text).map program = (p.check.mapError (.malformed text)).map fun _ => p := by
  unfold ofJudgedText
  split
  · next fault hfault => exact absurd (hfault.symm.trans hp) (by simp)
  · next p' hp' =>
      obtain rfl : p' = p := Except.ok.inj (hp'.symm.trans hp)
      split
      · next cause hcause =>
          rw [hcause]
          rfl
      · next hok =>
          show Except.ok p' = _
          rw [hok]
          rfl

theorem alike_program_ofJudgedText (h : SameSignificant text text')
    (hcheck : set.checkText text = .ok ()) :
    Alike ((ofJudgedText set text).map program) ((ofJudgedText set text').map program) := by
  obtain ⟨p, hp⟩ := exists_ofText_eq_ok hcheck
  rw [map_program_ofJudgedText hp, map_program_ofJudgedText (h.ofText_eq_ok_iff.1 hp)]
  cases p.check with
  | ok _ => exact .ok p
  | error cause => exact .error rfl

theorem alike_program_ofText (h : SameSignificant text text') :
    Alike ((ofText set text).map program) ((ofText set text').map program) := by
  rcases h.checkText_cases set with ⟨hcheck, hcheck'⟩ | ⟨fault, fault', hcheck, hcheck', hsame⟩
  · rw [ofText, ofText, hcheck, hcheck']
    exact alike_program_ofJudgedText h hcheck
  · rw [ofText, ofText, hcheck, hcheck']
    exact .error (congrArg (Rejection.text "") hsame)

theorem alike_programs_ofJudgedTexts {texts texts' : List String}
    (h : List.Forall₂ SameSignificant texts texts')
    (hcheck : ∀ text ∈ texts, set.checkText text = .ok ()) :
    Alike ((ofJudgedTexts set texts).map (List.map program))
      ((ofJudgedTexts set texts').map (List.map program)) := by
  induction h with
  | nil => exact .ok []
  | @cons text text' texts texts' hfirst hrest ih =>
      obtain ⟨hhead, htail⟩ := List.forall_mem_cons.1 hcheck
      rw [ofJudgedTexts, ofJudgedTexts]
      rcases (alike_program_ofJudgedText hfirst hhead).of_map with
        ⟨f, f', hf, hf', hprogram⟩ | ⟨r, r', hr, hr', hsame⟩
      · rw [hf, hf']
        rcases (ih htail).of_map with ⟨fs, fs', hfs, hfs', hprograms⟩ | ⟨r, r', hr, hr', hsame⟩
        · rw [hfs, hfs']
          show Alike (.ok (f.program :: fs.map program)) (.ok (f'.program :: fs'.map program))
          rw [hprogram, hprograms]
          exact .ok _
        · rw [hr, hr']
          exact .error hsame
      · rw [hr, hr']
        exact .error hsame

end Formula

/-- Either all texts of both lists are in order, or the first faults are the same but for their places. -/
theorem SymbolSet.checkTexts_cases (set : SymbolSet) {texts texts' : List String}
    (h : List.Forall₂ SameSignificant texts texts') :
    (set.checkTexts texts = .ok () ∧ set.checkTexts texts' = .ok ()) ∨
    ∃ text text' fault fault', set.checkTexts texts = .error (text, fault) ∧
      set.checkTexts texts' = .error (text', fault') ∧ fault.unplaced = fault'.unplaced := by
  induction h with
  | nil => exact .inl ⟨rfl, rfl⟩
  | cons hfirst hrest ih =>
      simp only [checkTexts]
      rcases hfirst.checkText_cases set with
        ⟨hcheck, hcheck'⟩ | ⟨fault, fault', hcheck, hcheck', hsame⟩
      · rw [hcheck, hcheck']
        exact ih
      · rw [hcheck, hcheck']
        exact .inr ⟨_, _, fault, fault', rfl, rfl, hsame⟩

theorem Expr.alike_ofText {set : SymbolSet} {text text' : String} (h : SameSignificant text text') :
    Alike (Expr.ofText set text) (Expr.ofText set text') := by
  rcases h.checkText_cases set with ⟨hcheck, hcheck'⟩ | ⟨fault, fault', hcheck, hcheck', hsame⟩
  · obtain ⟨tokens, htokens⟩ := SymbolSet.exists_tokensOf_of_checkText hcheck
    rw [ofText_eq hcheck htokens, ofText_eq hcheck' (h.tokensOf_eq_ok_iff.1 htokens)]
    cases ofTokens tokens with
    | ok e => exact .ok e
    | error cause => exact .error rfl
  · rw [ofText, ofText, hcheck, hcheck']
    exact .error (congrArg (Rejection.text "") hsame)

namespace Session

/-- The programs of the formulas. -/
def programs (s : Session) : List Postfix :=
  s.formulas.map Formula.program

theorem alike_evaluate {text text' : String} (h : SameSignificant text text') (s : Session)
    (v : Valuation) : Alike (s.evaluate text v) (s.evaluate text' v) := by
  unfold evaluate
  rcases (Formula.alike_program_ofText h).of_map with
    ⟨f, f', hf, hf', hprogram⟩ | ⟨r, r', hr, hr', hsame⟩
  · rw [hf, hf']
    simp only [Formula.evaluateNamed, Formula.evaluate, hprogram]
    cases f'.program.evaluate v with
    | ok value => exact .ok value
    | error cause => exact .error rfl
  · rw [hr, hr']
    exact .error hsame

theorem alike_programs_ofTexts {texts texts' : List String}
    (h : List.Forall₂ SameSignificant texts texts') (entries : List String) :
    Alike ((ofTexts entries texts).map programs) ((ofTexts entries texts').map programs) := by
  rw [ofTexts, ofTexts, judge, judge]
  cases SymbolSet.ofList entries with
  | error fault => exact .error rfl
  | ok set =>
      rcases set.checkTexts_cases h with
        ⟨hcheck, hcheck'⟩ | ⟨text, text', fault, fault', hcheck, hcheck', hsame⟩
      · simp only [hcheck, hcheck']
        have hjudged := (set.checkTexts_eq_ok_iff texts).1 hcheck
        rcases (Formula.alike_programs_ofJudgedTexts h hjudged).of_map with
          ⟨fs, fs', hfs, hfs', hprograms⟩ | ⟨r, r', hr, hr', hsame⟩
        · rw [hfs, hfs']
          show Alike (.ok (fs.map Formula.program)) (.ok (fs'.map Formula.program))
          rw [hprograms]
          exact .ok _
        · rw [hr, hr']
          exact .error hsame
      · simp only [hcheck, hcheck']
        exact .error (congrArg (Rejection.text "") hsame)

/-- Taking a text apart and writing tokens down are inverse. A text has no tokens for the very fault that
    judging finds when it finds an unknown character. Otherwise its tokens are written by its characters
    without the blanks, and each symbol has the position of its name. Tokens over the declared symbols are
    found again, whatever blanks are put before, between and behind them. So two texts that differ in blanks
    alone have the same program and the same values, and are accepted or rejected alike, wherever they
    are put. -/
theorem tokensOf_inverts_spacing (set : SymbolSet) :
    (∀ text fault, set.tokensOf text = .error fault ↔
      set.checkText text = .error fault ∧ ∃ c i, fault = .illegalCharacter c i) ∧
    (∀ text tokens, set.tokensOf text = .ok tokens →
      tokens.map Token.char = (text.toList.filter fun c => !Text.isBlank c) ∧
        ∀ s, .symbol s ∈ tokens → set.names.idxOf? s.name = some s.position) ∧
    (∀ text tokens, (∀ s, .symbol s ∈ tokens → s ∈ set.symbols) → Spaced tokens text.toList →
      set.tokensOf text = .ok tokens) ∧
    (∀ text text', SameSignificant text text' →
      (set.checkText text).mapError FormulaFault.unplaced =
        (set.checkText text').mapError FormulaFault.unplaced ∧
      (∀ p, Postfix.ofText set text = .ok p ↔ Postfix.ofText set text' = .ok p) ∧
      (∀ s : Session, s.symbols = set → ∀ v, Alike (s.evaluate text v) (s.evaluate text' v)) ∧
      Alike (Expr.ofText set text) (Expr.ofText set text')) ∧
    ∀ texts texts', List.Forall₂ SameSignificant texts texts' → ∀ entries,
      Alike ((ofTexts entries texts).map programs) ((ofTexts entries texts').map programs) := by
  refine ⟨SymbolSet.tokensOf_eq_error_iff, ?_, ?_, ?_, ?_⟩
  · intro text tokens htokens
    obtain ⟨hchars, hsymbols⟩ :=
      SymbolSet.map_char_of_map_token? (SymbolSet.tokensOf_eq_ok_iff.1 htokens)
    exact ⟨hchars.symm, fun s hs => SymbolSet.idxOf?_names (hsymbols s hs)⟩
  · intro text tokens hsymbols hspaced
    exact SymbolSet.tokensOf_eq_ok_iff_spaced.2 ⟨hsymbols, hspaced⟩
  · intro text text' h
    refine ⟨set.checkText_unplaced h, fun p => h.ofText_eq_ok_iff, ?_, Expr.alike_ofText h⟩
    rintro s rfl v
    exact alike_evaluate h s v
  · intro texts texts' h entries
    exact alike_programs_ofTexts h entries

/-- Blanks and a tab around the tokens of `p>q` are no tokens, and the program is the one without them. -/
theorem tokensOf_skips_tab :
    ∃ set, SymbolSet.ofList ["p", "q"] = .ok set ∧
      set.tokensOf " p >\tq " = .ok [.symbol ⟨'p', 0⟩, .operator (.binary .implies), .symbol ⟨'q', 1⟩] ∧
      ∀ p, Postfix.ofText set " p >\tq " = .ok p ↔ Postfix.ofText set "p>q" = .ok p := by
  refine ⟨_, rfl, ?_, ?_⟩
  · refine (tokensOf_inverts_spacing _).2.2.1 _ _ ?_ ?_
    · intro s hs
      simp only [List.mem_cons, Token.symbol.injEq, reduceCtorEq, List.not_mem_nil, or_false,
        false_or] at hs
      rcases hs with rfl | rfl
      · exact SymbolSet.mem_symbols_iff.2 rfl
      · exact SymbolSet.mem_symbols_iff.2 rfl
    · exact .of_filter_eq rfl
  · exact ((tokensOf_inverts_spacing _).2.2.2.1 " p >\tq " "p>q" rfl).2.1

end Session

end TruthTables
