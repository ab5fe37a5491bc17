import Mathlib.Data.List.Find
import TruthTables.Proofs.Assignment.Lookup
import TruthTables.Proofs.Postfix.Renaming
import TruthTables.Proofs.Session.Construction
import TruthTables.Proofs.Session.Tabulation

set_option autoImplicit false

/-! # Other declarations of the same symbols

A symbol that is declared at another place keeps its name and changes its position. A text that two symbol
sets share (`SymbolSet.Share`) is judged alike over both, since judging asks of a character only whether it
is known. Its tokens differ, but in the positions of the symbols alone: each symbol has its `counterpart`
in the other set, and the tokens over that set are renamed. Programs and values go along with renaming
(`Postfix.evaluate_rename`), so what was declared, and in which order, cannot be seen in a value. -/

namespace TruthTables

namespace SymbolSet

/-- Both sets know what the text is written with: a significant character is reserved, or declared in
    both. -/
def Share (set other : SymbolSet) (text : String) : Prop :=
  ∀ c ∈ text.toList, Text.isBlank c = false →
    isReserved c = true ∨ (set.contains c = true ∧ other.contains c = true)

/-- The symbol of the same name in this set, if there is one. -/
def counterpart (set : SymbolSet) (s : Symbol) : Symbol :=
  (set.get? s.name).getD s

theorem name_counterpart (set : SymbolSet) (s : Symbol) : (set.counterpart s).name = s.name := by
  rw [counterpart]
  cases h : set.get? s.name with
  | none => rfl
  | some s' => exact name_of_get? h

variable {set other : SymbolSet}

/-- Where both sets declare a name, its symbols are counterparts. -/
theorem get?_counterpart {c : Char} {s : Symbol} (hs : set.get? c = some s)
    (hother : other.contains c = true) : other.get? c = some (other.counterpart s) := by
  rw [contains_eq_isSome_get?, Option.isSome_iff_exists] at hother
  obtain ⟨s', hs'⟩ := hother
  rw [counterpart, name_of_get? hs, hs', Option.getD_some]

/-- A reserved character writes the same token over all sets. -/
theorem token?_eq_of_isReserved {c : Char} (h : isReserved c = true) : other.token? c = set.token? c := by
  rcases (isReserved_iff c).1 h with rfl | rfl | ⟨o, ho⟩
  · rfl
  · rfl
  · rw [← Operator.char_of_ofChar? ho, token?_operator, token?_operator]

/-- Judging asks only which of the characters are declared. -/
theorem checkSignificant_congr {chars : List (Char × Nat)}
    (h : ∀ entry ∈ chars, set.contains entry.1 = other.contains entry.1) :
    set.checkSignificant chars = other.checkSignificant chars := by
  have hfind : (chars.find? fun entry => !set.isKnown entry.1) =
      chars.find? fun entry => !other.isKnown entry.1 := by
    apply List.find?_congr
    intro entry hentry
    rw [isKnown, isKnown, h entry hentry]
  unfold checkSignificant
  rw [hfind]
  cases chars with
  | nil => rfl
  | cons entry rest =>
      obtain ⟨c, position⟩ := entry
      have hfirst : set.contains c = other.contains c := h (c, position) (List.mem_cons_self ..)
      simp only [hfirst]

namespace Share

variable {text : String} (h : set.Share other text)
include h

theorem contains_eq {c : Char} (hc : c ∈ text.toList) (hblank : Text.isBlank c = false) :
    set.contains c = other.contains c := by
  rcases h c hc hblank with hreserved | ⟨hset, hother⟩
  · rw [set.contains_eq_false_of_isReserved hreserved,
      other.contains_eq_false_of_isReserved hreserved]
  · rw [hset, hother]

theorem checkText_eq : set.checkText text = other.checkText text := by
  apply checkSignificant_congr
  intro entry hentry
  obtain ⟨hmem, hblank⟩ := char_of_mem_significant hentry
  exact h.contains_eq hmem hblank

theorem token?_eq {c : Char} (hc : c ∈ text.toList) (hblank : Text.isBlank c = false) :
    other.token? c = (set.token? c).map (Token.rename other.counterpart) := by
  rcases h c hc hblank with hreserved | ⟨hset, hother⟩
  · obtain ⟨t, ht, hsymbol⟩ := set.token?_of_isReserved hreserved
    rw [token?_eq_of_isReserved hreserved, ht]
    cases t with
    | symbol s => exact absurd rfl (hsymbol s)
    | _ => rfl
  · obtain ⟨-, hfree⟩ := set.usable_of_contains hset
    rw [contains_eq_isSome_get?, Option.isSome_iff_exists] at hset
    obtain ⟨s, hs⟩ := hset
    rw [set.token?_of_not_isReserved hfree, other.token?_of_not_isReserved hfree, hs,
      get?_counterpart hs hother]
    rfl

/-- The tokens of a shared text are the same up to renaming. -/
theorem exists_tokensOf : ∃ tokens, set.tokensOf text = .ok tokens ∧
    other.tokensOf text = .ok (tokens.map (Token.rename other.counterpart)) := by
  have hknown : ∀ entry ∈ significant text.toList, set.isKnown entry.1 = true := by
    intro entry hentry
    obtain ⟨hmem, hblank⟩ := char_of_mem_significant hentry
    rw [isKnown, Bool.or_eq_true]
    exact (h entry.1 hmem hblank).symm.imp And.left id
  obtain ⟨tokens, htokens⟩ := (exists_tokensOf_iff text).2 hknown
  refine ⟨tokens, htokens, tokensOf_eq_ok_iff.2 ?_⟩
  calc (text.toList.filter fun c => !Text.isBlank c).map other.token?
    _ = ((text.toList.filter fun c => !Text.isBlank c).map set.token?).map
          (Option.map (Token.rename other.counterpart)) := by
        rw [List.map_map]
        apply List.map_congr_left
        intro c hc
        obtain ⟨hmem, hblank⟩ := List.mem_filter.1 hc
        exact h.token?_eq hmem (by simpa using hblank)
    _ = (tokens.map some).map (Option.map (Token.rename other.counterpart)) := by
        rw [tokensOf_eq_ok_iff.1 htokens]
    _ = (tokens.map (Token.rename other.counterpart)).map some := by
        rw [List.map_map, List.map_map]
        rfl

/-- So are the programs, and the symbols in them are those of the text. -/
theorem exists_program : ∃ p, Postfix.ofText set text = .ok p ∧
    Postfix.ofText other text = .ok (p.rename other.counterpart) ∧
      p.symbols = set.symbolsIn text := by
  obtain ⟨tokens, htokens, hrenamed⟩ := h.exists_tokensOf
  refine ⟨Postfix.ofTokens tokens, Postfix.ofText_eq_ok_iff.2 ⟨tokens, htokens, rfl⟩,
    Postfix.ofText_eq_ok_iff.2 ⟨_, hrenamed, (Postfix.ofTokens_rename _ tokens).symm⟩, ?_⟩
  rw [Postfix.symbols_ofTokens, filterMap_symbol?_of_tokensOf htokens]

/-- The counterpart of a symbol in a shared text is declared. -/
theorem counterpart_mem {s : Symbol} (hs : s ∈ set.symbolsIn text) :
    other.counterpart s ∈ other.symbols := by
  obtain ⟨hmem, hset, hget⟩ := name_of_mem_symbolsIn hs
  have hother : other.contains s.name = true :=
    (h.contains_eq hmem (set.usable_of_contains hset).1).symm.trans hset
  exact mem_symbols_of_get? (get?_counterpart hget hother)

end Share

end SymbolSet

namespace Formula

variable {set other : SymbolSet}

/-- Formulas with the same text over two sets have the same value, if the symbols in the text have the
    values of their counterparts. -/
theorem evaluate_eq_of_share {f : Formula set} {g : Formula other} (htext : g.text = f.text)
    (h : set.Share other f.text) {v w : Valuation}
    (hvalue : ∀ s ∈ set.symbolsIn f.text, w (other.counterpart s) = v s) :
    g.evaluate w = f.evaluate v := by
  obtain ⟨p, hp, hrenamed, hsymbols⟩ := h.exists_program
  have hf : f.program = p := Except.ok.inj (f.converted.symm.trans hp)
  have hg : g.program = p.rename other.counterpart :=
    Except.ok.inj (g.converted.symm.trans (htext ▸ hrenamed))
  rw [evaluate, evaluate, hf, hg]
  exact Postfix.evaluate_rename (fun s _ => other.name_counterpart s)
    (fun s hs => hvalue s (hsymbols ▸ hs))

end Formula

namespace Session

variable {s s' : Session} {text : String}

/-- A shared text is evaluated alike in both sessions. -/
theorem evaluate_byName_eq_of_share (h : s.symbols.Share s'.symbols text)
    (value? : Char → Option Bool) :
    s.evaluate text (.byName value?) = s'.evaluate text (.byName value?) := by
  obtain ⟨p, hp, hrenamed, -⟩ := h.exists_program
  have hvalue : (p.rename s'.symbols.counterpart).evaluate (.byName value?) =
      p.evaluate (.byName value?) :=
    Postfix.evaluate_rename (fun sym _ => s'.symbols.name_counterpart sym)
      (fun sym _ => congrArg value? (s'.symbols.name_counterpart sym))
  rw [s.evaluate_eq_program hp, s'.evaluate_eq_program hrenamed, h.checkText_eq,
    Postfix.check_rename, hvalue]

/-- A text has the same value under valuations by name that agree on the names in the text. -/
theorem evaluate_byName_congr {value? other? : Char → Option Bool}
    (h : ∀ c ∈ text.toList, s.symbols.contains c = true → value? c = other? c) :
    s.evaluate text (.byName value?) = s.evaluate text (.byName other?) := by
  apply s.evaluate_congr_symbolsIn text
  intro sym hsym
  obtain ⟨hmem, hcontains, -⟩ := SymbolSet.name_of_mem_symbolsIn hsym
  exact h sym.name hmem hcontains

/-- The places of two tables that stand for a shared text and for assignments that agree on its names hold
    the same value. -/
theorem value?_valueTable_eq_of_share (h : s.symbols.Share s'.symbols text) {i i' j j' : Nat}
    {a a' : Assignment} (hj : s.texts[j]? = some text) (hj' : s'.texts[j']? = some text)
    (ha : s.assignment? i = some a) (ha' : s'.assignment? i' = some a')
    (hagree : ∀ c ∈ text.toList, s.symbols.contains c = true → a.get? c = a'.get? c) :
    ∃ value, s.valueTable.value? i j = some value ∧ s'.valueTable.value? i' j' = some value := by
  rw [texts, List.getElem?_map] at hj hj'
  obtain ⟨f, hf, rfl⟩ := Option.map_eq_some_iff.1 hj
  obtain ⟨g, hg, htext⟩ := Option.map_eq_some_iff.1 hj'
  obtain ⟨hsymbols, -⟩ := s.assignment?_eq_some_iff.1 ha
  obtain ⟨hsymbols', -⟩ := s'.assignment?_eq_some_iff.1 ha'
  have hvalue : g.evaluate a'.toValuation = f.evaluate a.toValuation := by
    apply Formula.evaluate_eq_of_share htext h
    intro sym hsym
    obtain ⟨hmem, hcontains, -⟩ := SymbolSet.name_of_mem_symbolsIn hsym
    rw [a'.toValuation_eq_get? (hsymbols' ▸ h.counterpart_mem hsym), SymbolSet.name_counterpart,
      a.toValuation_eq_get? (hsymbols ▸ SymbolSet.mem_symbols_of_mem_symbolsIn hsym)]
    exact (hagree sym.name hmem hcontains).symm
  refine ⟨f.valueUnder a.toValuation, ?_, ?_⟩
  · rw [valueTable_value?, ha, hf]
    rfl
  · rw [valueTable_value?, ha', hg, Formula.valueUnder, ← hvalue]
    rfl

/-- What a text means does not depend on how its symbols are declared. If the symbol sets of two sessions
    share a text, then both find the same fault in it or none, the check of its program has the same
    outcome, and a valuation by name gives it the same value or the same cause in both sessions. Only the
    values of the names in the text matter. So the tables of the two sessions have the same value wherever
    they have this text and their assignments agree on these names, whatever the numbers of the
    assignments are. -/
theorem declaration_keeps_meaning (h : s.symbols.Share s'.symbols text) :
    s.symbols.checkText text = s'.symbols.checkText text ∧
    (∃ p p', Postfix.ofText s.symbols text = .ok p ∧ Postfix.ofText s'.symbols text = .ok p' ∧
      p.check = p'.check) ∧
    (∀ value? : Char → Option Bool,
      s.evaluate text (.byName value?) = s'.evaluate text (.byName value?)) ∧
    (∀ value? other? : Char → Option Bool,
      (∀ c ∈ text.toList, s.symbols.contains c = true → value? c = other? c) →
        s.evaluate text (.byName value?) = s.evaluate text (.byName other?)) ∧
    ∃ t t', s.table = .ok t ∧ s'.table = .ok t' ∧
      ∀ i i' j j' a a', s.texts[j]? = some text → s'.texts[j']? = some text →
        s.assignment? i = some a → s'.assignment? i' = some a' →
        (∀ c ∈ text.toList, s.symbols.contains c = true → a.get? c = a'.get? c) →
          ∃ value, t.value? i j = some value ∧ t'.value? i' j' = some value := by
  refine ⟨h.checkText_eq, ?_, evaluate_byName_eq_of_share h, fun _ _ => evaluate_byName_congr,
    s.valueTable, s'.valueTable, s.table_eq_ok, s'.table_eq_ok, ?_⟩
  · obtain ⟨p, hp, hrenamed, -⟩ := h.exists_program
    exact ⟨p, _, hp, hrenamed, (Postfix.check_rename _ p).symm⟩
  · intro i i' j j' a a' hj hj' ha ha' hagree
    exact value?_valueTable_eq_of_share h hj hj' ha ha' hagree

/-- Two sessions that number their assignments differently: what is the second row of the first table is
    the seventh of the other. -/
theorem declaration_keeps_meaning_of_implication :
    ∃ (s s' : Session) (t t' : Table), SymbolSet.ofList ["p", "q"] = .ok s.symbols ∧
      SymbolSet.ofList ["r", "q", "p"] = .ok s'.symbols ∧ s.symbols.Share s'.symbols "p>q" ∧
      s.table = .ok t ∧ s'.table = .ok t' ∧ t.value? 2 0 = t'.value? 1 0 ∧
      s.evaluate "p>q" (.ofPairs [('p', true)]) = s'.evaluate "p>q" (.ofPairs [('p', true)]) ∧
      s.evaluate "p>q" (.ofPairs [('p', true)]) =
        s.evaluate "p>q" (.ofPairs [('p', true), ('r', true)]) := by
  let s : Session := {
    symbols := { names := ['p', 'q']
                 distinct := by decide
                 usable := List.forall_mem_cons.2 ⟨rfl, List.forall_mem_singleton.2 rfl⟩
                 nonempty := by decide
                 few := by decide }
    formulas := [{ text := "p>q"
                   program := ⟨[.symbol ⟨'p', 0⟩, .symbol ⟨'q', 1⟩, .operator (.binary .implies)]⟩
                   converted := rfl
                   checked := rfl }] }
  let s' : Session := {
    symbols := { names := ['r', 'q', 'p']
                 distinct := by decide
                 usable := List.forall_mem_cons.2
                   ⟨rfl, List.forall_mem_cons.2 ⟨rfl, List.forall_mem_singleton.2 rfl⟩⟩
                 nonempty := by decide
                 few := by decide }
    formulas := [{ text := "p>q"
                   program := ⟨[.symbol ⟨'p', 2⟩, .symbol ⟨'q', 1⟩, .operator (.binary .implies)]⟩
                   converted := rfl
                   checked := rfl }] }
  have hchars : ∀ holds : Char → Prop, holds 'p' → holds '>' → holds 'q' →
      ∀ c ∈ "p>q".toList, holds c := by
    intro holds hp hsign hq
    show ∀ c ∈ ['p', '>', 'q'], holds c
    simp [hp, hsign, hq]
  have hshare : s.symbols.Share s'.symbols "p>q" :=
    hchars _ (fun _ => Or.inr ⟨rfl, rfl⟩) (fun _ => Or.inl rfl) (fun _ => Or.inr ⟨rfl, rfl⟩)
  obtain ⟨-, -, hsame, haltered, t, t', ht, ht', hvalue⟩ := declaration_keeps_meaning hshare
  refine ⟨s, s', t, t', rfl, rfl, hshare, ht, ht', ?_, hsame _, haltered _ _ ?_⟩
  · obtain ⟨value, hvalue, hvalue'⟩ := hvalue 2 1 0 0 _ _ rfl rfl rfl rfl
      (hchars _ (fun _ => by decide) (fun _ => by decide) (fun _ => by decide))
    rw [hvalue, hvalue']
  · exact hchars _ (fun _ => rfl) (fun _ => rfl) (fun _ => rfl)

end Session

end TruthTables
