import TruthTables.Proofs.Generator.Lines
import TruthTables.Proofs.Session.Acceptance

set_option autoImplicit false

/-! # Generated problems can be loaded

A generated problem goes through the file format, the judgement of its symbols and texts, conversion and
the parser. All of them take it without a change. The symbols were judged beforehand, so they can be read
as a symbol set again (`symbolsOf_eq_ok`), and each formula is a line that holds one (`FormulaLine`). -/

namespace TruthTables

namespace Generator

/-! ## Symbols -/

/-- The symbols of a generator are a symbol set again, without characters of the file format. -/
theorem symbolsOf_eq_ok {text : String} {names : List Char} (h : symbolsOf text = .ok names) :
    ∃ set, SymbolSet.ofList (names.map Char.toString) = .ok set ∧ set.names = names ∧
      ∀ c ∈ names, isFileCharacter c = false := by
  rw [symbolsOf] at h
  split at h
  · exact absurd h (by simp)
  · next hnone =>
      split at h
      · exact absurd h (by simp)
      · next set hset =>
          have hnames := char_toString_injective.list_map (SymbolSet.map_names_of_ofList hset)
          cases h
          refine ⟨set, hnames ▸ hset, rfl, fun c hc => ?_⟩
          rw [hnames] at hc
          simpa using List.find?_eq_none.1 hnone c hc

/-! ## Formulas -/

section

variable {set : SymbolSet} {depth : Nat}

theorem FormulaLine.exists_derives {line : List Char} (h : FormulaLine set depth line) :
    ∃ tokens e, set.tokensOf (String.ofList line) = .ok tokens ∧ Derives tokens e := by
  obtain ⟨-, tokens, hwrites, d, hd, -⟩ := h
  exact ⟨tokens, d.tree, hwrites.tokensOf_eq, d, hd, rfl⟩

/-- The parser takes a line within its limit on nesting. -/
theorem FormulaLine.exists_ofText {line : List Char} (h : FormulaLine set depth line)
    (hdepth : depth ≤ nestingLimit) : ∃ e, Expr.ofText set (String.ofList line) = .ok e := by
  obtain ⟨-, tokens, hwrites, d, rfl, hnested⟩ := h
  exact ⟨d.tree, Expr.ofText_of_writes hwrites fun n hn => Nat.le_trans (hnested n hn) hdepth⟩

/-- A session takes lines with formulas at any depth. -/
theorem exists_session_of_formulaLines {entries : List String}
    (hset : SymbolSet.ofList entries = .ok set) {lines : List (List Char)}
    (h : ∀ line ∈ lines, FormulaLine set depth line) :
    ∃ session, Session.ofTexts entries (lines.map String.ofList) = .ok session ∧
      session.symbols = set ∧ session.texts = lines.map String.ofList := by
  have htexts : ∀ text ∈ lines.map String.ofList,
      set.checkText text = .ok () ∧ ∃ f : Formula set, f.text = text := by
    intro text htext
    obtain ⟨line, hline, rfl⟩ := List.mem_map.1 htext
    obtain ⟨tokens, e, htokens, hderives⟩ := (h line hline).exists_derives
    exact ⟨hderives.checkText_eq_ok htokens,
      (Formula.exists_text_eq_iff _).2 ⟨tokens, htokens, hderives.check_eq_ok⟩⟩
  obtain ⟨session, hsession⟩ := (Session.exists_ofTexts_iff hset _).2 htexts
  obtain ⟨fs, rfl, -, hfs⟩ := (Session.ofTexts_eq_ok_iff hset _ session).1 hsession
  exact ⟨_, hsession, rfl, hfs⟩

/-- A file can hold names that mean nothing in it and lines with formulas. -/
theorem writable_of_formulaLines (hfile : ∀ c ∈ set.names, isFileCharacter c = false)
    {lines : List (List Char)} (h : ∀ line ∈ lines, FormulaLine set depth line) :
    (Problem.mk (set.names.map Char.toString) (lines.map String.ofList)).Writable := by
  have hname : ∀ c ∈ set.names, Text.isBlank c = false ∧ c ≠ '#' ∧ c ≠ ',' := by
    intro c hc
    have hplain : isFileCharacter c = false := hfile c hc
    simp only [isFileCharacter, Bool.or_eq_false_iff, beq_eq_false_iff_ne] at hplain
    exact ⟨(isUsable_iff.1 (set.usable c hc)).1, hplain⟩
  have hentry : ∀ entry ∈ set.names.map Char.toString, ∃ c ∈ set.names, entry.toList = [c] := by
    intro entry hentry
    obtain ⟨c, hc, rfl⟩ := List.mem_map.1 hentry
    exact ⟨c, hc, String.toList_singleton c⟩
  constructor
  · simpa using set.nonempty
  · intro entry hmem
    obtain ⟨c, hc, heq⟩ := hentry entry hmem
    rw [heq]
    exact .singleton (hname c hc).1 (hname c hc).2.1
  · intro entry hmem
    obtain ⟨c, hc, heq⟩ := hentry entry hmem
    rw [heq, List.forall_mem_singleton, Problem.isSeparator, (hname c hc).1]
    simpa using (hname c hc).2.2
  · intro text htext
    obtain ⟨line, hline, rfl⟩ := List.mem_map.1 htext
    rw [String.toList_ofList]
    exact (h line hline).plain

end

/-! ## Problems -/

/-- Whatever is drawn, a generated problem is read back from its file as it was written, and a session
    takes it. If no formula is built in too many steps, the parser takes each of them as well. -/
theorem problemOver_loads {σ : Type} (draws : Draws σ) {text : String} {names : List Char}
    (h : symbolsOf text = .ok names) (count depth : Nat) (s : σ) :
    ∃ first others, names = first :: others ∧
      ∃ p s', problemOver draws names count depth s = .ok (p, s') ∧
        p.symbols = names.map Char.toString ∧
        p.formulas = (formulas draws first others depth count s).1.map String.ofList ∧
        p.formulas.length = count ∧
        Problem.ofText p.text = .ok p ∧ Problem.ofBytes p.text.toUTF8 = .ok p ∧
        ∃ session, Session.ofTexts p.symbols p.formulas = .ok session ∧
          session.symbols.names = names ∧ session.texts = p.formulas ∧
          (depth ≤ nestingLimit →
            ∀ formula ∈ p.formulas, ∃ e, Expr.ofText session.symbols formula = .ok e) := by
  obtain ⟨set, hset, rfl, hfile⟩ := symbolsOf_eq_ok h
  obtain ⟨first, others, hnames⟩ := List.exists_cons_of_ne_nil set.nonempty
  have hchars : ∀ c ∈ first :: others, c ∈ set.names ∧ c ≠ '#' := by
    rw [← hnames]
    intro c hc
    refine ⟨hc, ?_⟩
    rintro rfl
    exact absurd (hfile '#' hc) (by decide)
  -- from here on nothing is known of the draws but the lines that they led to
  obtain ⟨hcount, hlines⟩ := always_formulaLines hchars draws depth count s
  have hproblem : problemOver draws set.names count depth s =
      .ok (⟨set.names.map Char.toString,
        (formulas draws first others depth count s).1.map String.ofList⟩,
        (formulas draws first others depth count s).2) := by
    rw [hnames]
    rfl
  have hwritable := writable_of_formulaLines hfile hlines
  obtain ⟨session, hsession, rfl, htexts⟩ := exists_session_of_formulaLines hset hlines
  refine ⟨first, others, hnames, _, _, hproblem, rfl, rfl, ?_, Problem.ofText_text hwritable,
    Problem.ofBytes_text hwritable, session, hsession, rfl, htexts, fun hdepth formula hformula => ?_⟩
  · rw [List.length_map, hcount]
  · obtain ⟨line, hline, rfl⟩ := List.mem_map.1 hformula
    exact (hlines line hline).exists_ofText hdepth

/-- A problem with one negation, drawn from three words. -/
theorem problemOver_loads_negation :
    ∃ p s', problemOver Words.draws ['p', 'q'] 1 1 ⟨[0x8000000000000000, 0, 0x80000000], 0⟩ =
        .ok (p, s') ∧
      p.formulas = ["~q"] ∧ Problem.ofText p.text = .ok p ∧
      ∃ session, Session.ofTexts p.symbols p.formulas = .ok session ∧
        ∃ e, Expr.ofText session.symbols "~q" = .ok e := by
  obtain ⟨first, others, hnames, p, s', hproblem, -, hformulas, -, htext, -, session, hsession, -, -,
    hparser⟩ := problemOver_loads Words.draws (show symbolsOf "p q" = .ok ['p', 'q'] from rfl) 1 1
      ⟨[0x8000000000000000, 0, 0x80000000], 0⟩
  obtain ⟨rfl, rfl⟩ := List.cons.inj hnames
  have hdrawn : p.formulas = ["~q"] := hformulas.trans rfl
  refine ⟨p, s', hproblem, hdrawn, htext, session, hsession, hparser (by decide) "~q" ?_⟩
  rw [hdrawn]
  exact List.mem_singleton_self "~q"

end Generator

end TruthTables
