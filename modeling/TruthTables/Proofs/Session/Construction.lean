import TruthTables.Proofs.Formula.Value
import TruthTables.Proofs.Session.Acceptance

set_option autoImplicit false

/-! # Why a session is not built

A session is built in three rounds: symbols, texts, programs. A round begins only when the one before has
found nothing, and it reports the first item at fault (`FirstFault`). So the fault of a text comes before
that of a program, also if the text stands behind the program's. A text that is evaluated ad hoc goes
through the same rounds on its own. Whatever is wrong with it is therefore what would be wrong with a
session of this text alone, and once it is accepted, the valuation decides the rest. -/

namespace TruthTables

/-! ## First faults -/

/-- The first item of a list that has a fault, and its fault. -/
def FirstFault {α ε : Type} (Has : α → ε → Prop) (items : List α) (item : α) (fault : ε) : Prop :=
  ∃ front behind, items = front ++ item :: behind ∧ (∀ x ∈ front, ∀ other, ¬ Has x other) ∧
    Has item fault

namespace FirstFault

variable {α ε : Type} {Has : α → ε → Prop} {items : List α} {x item : α} {fault : ε}

theorem not_nil : ¬ FirstFault Has [] item fault := by
  rintro ⟨front, behind, heq, -⟩
  exact absurd heq (by simp)

/-- An item at fault comes before all others. -/
theorem cons_iff_of_has {first : ε} (hfirst : Has x first) :
    FirstFault Has (x :: items) item fault ↔ item = x ∧ Has x fault := by
  constructor
  · rintro ⟨front, behind, heq, hfront, hitem⟩
    cases front with
    | nil =>
        obtain ⟨rfl, -⟩ := List.cons.inj heq
        exact ⟨rfl, hitem⟩
    | cons y front =>
        obtain ⟨rfl, -⟩ := List.cons.inj heq
        exact absurd hfirst (hfront x (List.mem_cons_self ..) first)
  · rintro ⟨rfl, hitem⟩
    exact ⟨[], items, rfl, by simp, hitem⟩

/-- An item without a fault is passed over. -/
theorem cons_iff_of_not (hnone : ∀ other, ¬ Has x other) :
    FirstFault Has (x :: items) item fault ↔ FirstFault Has items item fault := by
  constructor
  · rintro ⟨front, behind, heq, hfront, hitem⟩
    cases front with
    | nil =>
        obtain ⟨rfl, -⟩ := List.cons.inj heq
        exact absurd hitem (hnone fault)
    | cons y front =>
        obtain ⟨-, hrest⟩ := List.cons.inj heq
        exact ⟨front, behind, hrest, (List.forall_mem_cons.1 hfront).2, hitem⟩
  · rintro ⟨front, behind, rfl, hfront, hitem⟩
    exact ⟨x :: front, behind, rfl, List.forall_mem_cons.2 ⟨hnone, hfront⟩, hitem⟩

end FirstFault

/-! ## Texts -/

namespace SymbolSet

variable {set : SymbolSet}

/-- Judging the text finds this fault. -/
def HasFault (set : SymbolSet) (text : String) (fault : FormulaFault) : Prop :=
  set.checkText text = .error fault

/-- Judging texts reports the first with a fault. -/
theorem checkTexts_eq_error_iff (texts : List String) (text : String) (fault : FormulaFault) :
    set.checkTexts texts = .error (text, fault) ↔ FirstFault set.HasFault texts text fault := by
  induction texts with
  | nil => simp [checkTexts, FirstFault.not_nil]
  | cons first rest ih =>
      rw [checkTexts]
      cases hfirst : set.checkText first with
      | error fault' =>
          have hhas : set.HasFault first fault' := hfirst
          rw [FirstFault.cons_iff_of_has hhas]
          simp only [HasFault, hfirst, Except.error.injEq, Prod.mk.injEq]
          exact and_congr_left' eq_comm
      | ok _ =>
          have hnone : ∀ fault, ¬ set.HasFault first fault := by simp [HasFault, hfirst]
          rw [FirstFault.cons_iff_of_not hnone, ← ih]

/-- A text in order can be taken apart: judging it looks at all its characters first. -/
theorem exists_tokensOf_of_checkText {text : String} (h : set.checkText text = .ok ()) :
    ∃ tokens, set.tokensOf text = .ok tokens := by
  rw [exists_tokensOf_iff]
  unfold checkText checkSignificant at h
  split at h
  · exact absurd h (by simp)
  · next hnone =>
      intro entry hentry
      simpa using List.find?_eq_none.1 hnone entry hentry

end SymbolSet

/-! ## Programs -/

namespace Formula

variable {set : SymbolSet} {text : String}

/-- The text has a program, and the program does not pass its check. -/
def FailsCheck (set : SymbolSet) (text : String) (cause : Malformed) : Prop :=
  ∃ program, Postfix.ofText set text = .ok program ∧ program.check = .error cause

/-- A text in order is converted, and then it is its program that counts. -/
theorem exists_ofText_eq_ok (h : set.checkText text = .ok ()) :
    ∃ program, Postfix.ofText set text = .ok program := by
  obtain ⟨tokens, htokens⟩ := SymbolSet.exists_tokensOf_of_checkText h
  exact ⟨_, Postfix.ofText_eq_ok_iff.2 ⟨tokens, htokens, rfl⟩⟩

theorem ofJudgedText_eq_error_iff (h : set.checkText text = .ok ()) (rejection : Rejection) :
    ofJudgedText set text = .error rejection ↔
      ∃ cause, FailsCheck set text cause ∧ rejection = .malformed text cause := by
  obtain ⟨program, hprogram⟩ := exists_ofText_eq_ok h
  unfold ofJudgedText
  split
  · next fault hfault => exact absurd (hfault.symm.trans hprogram) (by simp)
  · next program' hprogram' =>
      have heq : program' = program := Except.ok.inj (hprogram'.symm.trans hprogram)
      subst heq
      split
      · next cause hcause => simp [FailsCheck, hprogram, hcause, eq_comm]
      · next hok => simp [FailsCheck, hprogram, hok]

/-- Converting texts in order reports the first whose program fails. -/
theorem ofJudgedTexts_eq_error_iff {texts : List String}
    (h : ∀ text ∈ texts, set.checkText text = .ok ()) (rejection : Rejection) :
    ofJudgedTexts set texts = .error rejection ↔
      ∃ text cause, FirstFault (FailsCheck set) texts text cause ∧
        rejection = .malformed text cause := by
  induction texts with
  | nil => simp [ofJudgedTexts, FirstFault.not_nil]
  | cons first rest ih =>
      obtain ⟨hjudged, hrest⟩ := List.forall_mem_cons.1 h
      rw [ofJudgedTexts]
      cases hfirst : ofJudgedText set first with
      | error rejection' =>
          obtain ⟨cause, hcause, rfl⟩ := (ofJudgedText_eq_error_iff hjudged rejection').1 hfirst
          simp only [FirstFault.cons_iff_of_has hcause]
          constructor
          · intro heq
            exact ⟨first, cause, ⟨rfl, hcause⟩, (Except.error.inj heq).symm⟩
          · rintro ⟨text, cause', ⟨rfl, hcause'⟩, rfl⟩
            have hsame := (ofJudgedText_eq_error_iff hjudged _).2 ⟨cause', hcause', rfl⟩
            exact congrArg Except.error (Except.error.inj (hfirst.symm.trans hsame))
      | ok f =>
          have hnone : ∀ cause, ¬ FailsCheck set first cause := by
            intro cause hcause
            have herror := (ofJudgedText_eq_error_iff hjudged _).2 ⟨cause, hcause, rfl⟩
            exact absurd (hfirst.symm.trans herror) (by simp)
          simp only [FirstFault.cons_iff_of_not hnone, ← ih hrest]
          cases ofJudgedTexts set rest <;> simp [Except.map]

end Formula

/-! ## Sessions -/

namespace Session

section

variable {entries : List String} {set : SymbolSet} (hset : SymbolSet.ofList entries = .ok set)
include hset

/-- A session is refused for the first text with a fault, or, if there is none, for the first program
    that fails. -/
theorem ofTexts_eq_error_iff (texts : List String) (rejection : Rejection) :
    ofTexts entries texts = .error rejection ↔
      (∃ text fault, FirstFault set.HasFault texts text fault ∧ rejection = .text text fault) ∨
      (∀ text ∈ texts, set.checkText text = .ok ()) ∧
        ∃ text cause, FirstFault (Formula.FailsCheck set) texts text cause ∧
          rejection = .malformed text cause := by
  rw [ofTexts, judge, hset]
  simp only [← SymbolSet.checkTexts_eq_error_iff, ← set.checkTexts_eq_ok_iff]
  cases hcheck : set.checkTexts texts with
  | error found =>
      obtain ⟨text, fault⟩ := found
      simp [eq_comm]
  | ok _ =>
      have hjudged := (set.checkTexts_eq_ok_iff texts).1 hcheck
      simp only [← Formula.ofJudgedTexts_eq_error_iff hjudged]
      cases Formula.ofJudgedTexts set texts <;> simp

/-- A session of one text is refused for what is wrong with the text. -/
theorem ofTexts_singleton_eq_error_iff (text : String) (rejection : Rejection) :
    ofTexts entries [text] = .error rejection ↔ Formula.ofText set text = .error rejection := by
  rw [ofTexts, judge, hset, Formula.ofText]
  simp only [SymbolSet.checkTexts, Formula.ofJudgedTexts]
  cases set.checkText text with
  | error fault => simp
  | ok _ => cases hf : Formula.ofJudgedText set text <;> simp [hf, Except.map]

end

/-- A formula's text has the values of the formula, and a cause names the text. -/
theorem evaluate_eq_evaluateNamed (s : Session) (f : Formula s.symbols)
    (h : s.symbols.checkText f.text = .ok ()) (v : Valuation) :
    s.evaluate f.text v = f.evaluateNamed v := by
  rw [evaluate, (Formula.ofText_eq_ok_iff f.text f).2 ⟨h, rfl⟩]

/-- What becomes of a text that is evaluated ad hoc: the text is judged, then its program is checked, and
    then the program has its say. -/
theorem evaluate_eq_program (s : Session) {text : String} {p : Postfix}
    (hp : Postfix.ofText s.symbols text = .ok p) (v : Valuation) :
    s.evaluate text v =
      match s.symbols.checkText text with
      | .error fault => .error (.text text fault)
      | .ok () =>
        match p.check with
        | .error cause => .error (.malformed text cause)
        | .ok () => (p.evaluate v).mapError (.malformed text) := by
  cases hjudged : s.symbols.checkText text with
  | error fault => rw [evaluate, Formula.ofText, hjudged]
  | ok _ =>
      cases hcheck : p.check with
      | error cause =>
          have hrejected := (Formula.ofJudgedText_eq_error_iff hjudged _).2
            ⟨cause, ⟨p, hp, hcheck⟩, rfl⟩
          simp only [evaluate, Formula.ofText, hjudged, hrejected]
      | ok _ =>
          let f : Formula s.symbols := ⟨text, p, hp, hcheck⟩
          rw [evaluate, (Formula.ofText_eq_ok_iff text f).2 ⟨hjudged, rfl⟩]
          rfl

/-- Under a valuation of all symbols a text has a value unless it is rejected. -/
theorem evaluate_eq_error_iff (s : Session) (text : String) {v : Valuation}
    (hv : v.Covers s.symbols) (rejection : Rejection) :
    s.evaluate text v = .error rejection ↔ Formula.ofText s.symbols text = .error rejection := by
  rw [evaluate]
  cases Formula.ofText s.symbols text with
  | error rejection' => simp
  | ok f =>
      have hvalue : f.evaluateNamed v = .ok (f.valueUnder v) := by
        rw [Formula.evaluateNamed, f.evaluate_eq_valueUnder hv]
        rfl
      simp [hvalue]

/-- A session is refused for one reason. The symbols are judged first, then the texts, then the programs,
    and of the first of these rounds that finds something the first finding is reported. If none does,
    the session has the texts in order, and each of its formulas has the values that its text has when it
    is evaluated ad hoc, where a cause names the text besides. Any text whatsoever is refused ad hoc, under
    a valuation of all symbols, just as it is by a session of this text alone. On neither way can a text
    be in order and then not be taken apart. -/
theorem ofTexts_reports_first_violation (entries texts : List String) :
    (∀ fault, ofTexts entries texts = .error (.symbols fault) ↔
      SymbolSet.ofList entries = .error fault) ∧
    ∀ set, SymbolSet.ofList entries = .ok set →
      (∀ text fault, ofTexts entries texts = .error (.text text fault) ↔
        FirstFault set.HasFault texts text fault) ∧
      (∀ text cause, ofTexts entries texts = .error (.malformed text cause) ↔
        (∀ text ∈ texts, set.checkText text = .ok ()) ∧
          FirstFault (Formula.FailsCheck set) texts text cause) ∧
      ((∃ s, ofTexts entries texts = .ok s) ↔
        ∀ text ∈ texts, set.checkText text = .ok () ∧
          ∃ program, Postfix.ofText set text = .ok program ∧ program.check = .ok ()) ∧
      (∀ s, ofTexts entries texts = .ok s → s.symbols = set ∧ s.texts = texts ∧
        (∀ i text, texts[i]? = some text → ∀ v, ∃ result, s.evaluateFormula? i v = some result ∧
          s.evaluate text v = result.mapError (.malformed text)) ∧
        ∀ text v, v.Covers set → ∀ rejection,
          s.evaluate text v = .error rejection ↔ ofTexts entries [text] = .error rejection) ∧
      ∀ text, set.checkText text = .ok () → ∃ tokens, set.tokensOf text = .ok tokens := by
  refine ⟨?_, fun set hset => ⟨?_, ?_, ?_, ?_, fun text => SymbolSet.exists_tokensOf_of_checkText⟩⟩
  · intro fault
    cases hset : SymbolSet.ofList entries with
    | error fault' => simp [ofTexts, judge, hset]
    | ok set => simp [ofTexts_eq_error_iff hset]
  · intro text fault
    simp [ofTexts_eq_error_iff hset]
  · intro text cause
    simp [ofTexts_eq_error_iff hset]
  · simp only [exists_ofTexts_iff hset, Formula.exists_text_eq_iff_program]
  · intro s hs
    obtain ⟨fs, rfl, hcheck, rfl⟩ := (ofTexts_eq_ok_iff hset texts s).1 hs
    refine ⟨rfl, rfl, ?_, ?_⟩
    · intro i text htext v
      rw [List.getElem?_map] at htext
      obtain ⟨f, hf, rfl⟩ := Option.map_eq_some_iff.1 htext
      have hjudged := hcheck f.text (List.mem_map_of_mem (List.mem_of_getElem? hf))
      refine ⟨f.evaluate v, ?_, evaluate_eq_evaluateNamed ⟨set, fs⟩ f hjudged v⟩
      rw [evaluateFormula?, hf]
      rfl
    · intro text v hv rejection
      rw [evaluate_eq_error_iff ⟨set, fs⟩ text hv, ofTexts_singleton_eq_error_iff hset]

/-- A fault of the second text comes before the malformed program of the first, which is reported when the
    first text stands alone and when it is evaluated ad hoc. -/
theorem ofTexts_reports_later_text :
    ofTexts ["p", "q"] ["pq", "p)"] = .error (.text "p)" (.parentheses (.frontLoaded 1))) ∧
    ∃ s, ofTexts ["p", "q"] ["p>q"] = .ok s ∧
      s.evaluate "pq" (.ofPairs [('p', true), ('q', true)]) =
        .error (.malformed "pq" (.leftover 2)) := by
  constructor
  · refine (((ofTexts_reports_first_violation ["p", "q"] ["pq", "p)"]).2 _ rfl).1 _ _).2 ?_
    refine ⟨["pq"], [], rfl, ?_, rfl⟩
    intro text htext fault hfault
    cases List.mem_singleton.1 htext
    cases hfault
  · obtain ⟨-, -, haccepts, hsession, -⟩ :=
      (ofTexts_reports_first_violation ["p", "q"] ["p>q"]).2 _ rfl
    obtain ⟨s, hs⟩ := haccepts.2 (by
      intro text htext
      cases List.mem_singleton.1 htext
      exact ⟨rfl, _, rfl, rfl⟩)
    obtain ⟨-, -, -, hadhoc⟩ := hsession s hs
    refine ⟨s, hs, (hadhoc "pq" _ ?_ _).2 ?_⟩
    · intro sym hsym
      have hmem : sym ∈ [(⟨'p', 0⟩ : Symbol), ⟨'q', 1⟩] := hsym
      rcases List.mem_pair.1 hmem with rfl | rfl <;> rfl
    · refine (((ofTexts_reports_first_violation ["p", "q"] ["pq"]).2 _ rfl).2.1 _ _).2 ⟨?_, ?_⟩
      · intro text htext
        cases List.mem_singleton.1 htext
        rfl
      · exact ⟨[], [], rfl, by simp, _, rfl, rfl⟩

end Session

end TruthTables
