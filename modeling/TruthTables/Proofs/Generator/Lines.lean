import TruthTables.Generator
import TruthTables.Proofs.Formula.Text
import TruthTables.Proofs.Grammar.Gluing
import TruthTables.Proofs.Problem.Reading

set_option autoImplicit false

/-! # Generated lines

The generator writes pieces of text one behind the other and never looks at the formulas in them. Each of
its steps keeps three things at once (`FormulaLine`): the line can stand in a file, its characters write
tokens of a formula, and no symbol in it is enclosed by more signs than there were steps. Since nothing is
assumed about the draws, this is so for every outcome of them. -/

namespace TruthTables

namespace Generator

/-! ## The tokens of pieces -/

section

variable {set : SymbolSet} {line left right : List Char} {tokens tokens' : List Token}

theorem exists_writes_symbol {c : Char} (hc : c ∈ set.names) :
    ∃ s, set.Writes [c] [.symbol s] := by
  obtain ⟨hblank, hreserved⟩ := isUsable_iff.1 (set.usable c hc)
  have hknown : (set.get? c).isSome = true := by
    rw [← set.contains_eq_isSome_get?]
    exact List.contains_iff_mem.2 hc
  obtain ⟨s, hs⟩ := Option.isSome_iff_exists.1 hknown
  have htoken : set.token? c = some (.symbol s) := by
    rw [set.token?_of_not_isReserved hreserved, hs]
    rfl
  exact ⟨s, SymbolSet.writes_singleton hblank htoken⟩

theorem writes_negation (h : set.Writes line tokens) :
    set.Writes ('~' :: line) (.operator .not :: tokens) := by
  have hsign : set.Writes ['~'] [.operator .not] :=
    SymbolSet.writes_singleton (by decide) (set.token?_operator .not)
  exact hsign.append h

theorem writes_joined (c : Connective) (hl : set.Writes left tokens) (hr : set.Writes right tokens') :
    set.Writes (joined false c left right) (tokens ++ .operator (.binary c) :: tokens') := by
  have hsign : set.Writes [c.char] [.operator (.binary c)] :=
    SymbolSet.writes_singleton (by cases c <;> decide) (set.token?_operator (.binary c))
  have hspace : set.Writes [' '] [] := SymbolSet.writes_space
  exact hl.append ((hspace.append (hsign.append hspace)).append hr)

theorem writes_group (h : set.Writes line tokens) :
    set.Writes ('(' :: line ++ [')']) (.opening :: tokens ++ [.closing]) := by
  have hopening : set.Writes ['('] [.opening] := SymbolSet.writes_singleton (by decide) rfl
  have hclosing : set.Writes [')'] [.closing] := SymbolSet.writes_singleton (by decide) rfl
  exact (hopening.append h).append hclosing

end

/-! ## Lines with a formula -/

/-- A line of a problem file with a formula on it, each symbol enclosed by at most `depth` signs. -/
structure FormulaLine (set : SymbolSet) (depth : Nat) (line : List Char) : Prop where
  plain : Problem.Plain line
  writes : ∃ tokens, set.Writes line tokens ∧ DerivesWithin .formula depth tokens

namespace FormulaLine

variable {set : SymbolSet} {depth : Nat} {line left right : List Char}

theorem mono {depth' : Nat} (h : FormulaLine set depth line) (hle : depth ≤ depth') :
    FormulaLine set depth' line := by
  obtain ⟨hplain, tokens, hwrites, hderives⟩ := h
  exact ⟨hplain, tokens, hwrites, hderives.mono hle⟩

theorem symbol {c : Char} (hc : c ∈ set.names) (hcomment : c ≠ '#') :
    FormulaLine set depth [c] := by
  obtain ⟨hblank, -⟩ := isUsable_iff.1 (set.usable c hc)
  obtain ⟨s, hwrites⟩ := exists_writes_symbol hc
  exact ⟨.singleton hblank hcomment, _, hwrites, .symbol s⟩

theorem negation (h : FormulaLine set depth line) : FormulaLine set (depth + 1) ('~' :: line) := by
  obtain ⟨hplain, tokens, hwrites, hderives⟩ := h
  have hfirst : Problem.Plain ['~'] := .singleton (by decide) (by decide)
  exact ⟨hfirst.append (List.forall_mem_nil _) hplain, _, writes_negation hwrites,
    hderives.negation⟩

theorem joined (grouped : Bool) (c : Connective) (hl : FormulaLine set depth left)
    (hr : FormulaLine set depth right) :
    FormulaLine set (depth + 1) (Generator.joined grouped c left right) := by
  obtain ⟨hplain, tokens, hwrites, hderives⟩ := hl
  obtain ⟨hplain', tokens', hwrites', hderives'⟩ := hr
  -- without parentheses the line needs none of the depth that the step allows
  have hopen : FormulaLine set depth (Generator.joined false c left right) := by
    refine ⟨?_, _, writes_joined c hwrites hwrites', hderives.join hderives'⟩
    have hmiddle : ∀ d ∈ [' ', c.char, ' '], d ≠ '\n' ∧ d ≠ '#' := by
      cases c <;> simp [Connective.char]
    have hjoined := hplain.append hmiddle hplain'
    rwa [List.append_assoc] at hjoined
  cases grouped with
  | false => exact hopen.mono (Nat.le_succ depth)
  | true =>
      obtain ⟨hvisible, tokens, hinner, hderives⟩ := hopen
      have hfirst : Problem.Plain ['('] := .singleton (by decide) (by decide)
      have hlast : Problem.Plain [')'] := .singleton (by decide) (by decide)
      exact ⟨hfirst.append hvisible.visible hlast, _, writes_group hinner, hderives.group⟩

end FormulaLine

/-! ## Every outcome of the draws -/

variable {σ α β : Type}

/-- A property that a result has whatever is drawn. -/
def Always (P : α → Prop) (m : StateM σ α) : Prop :=
  ∀ s, P (m s).1

namespace Always

variable {P : α → Prop} {Q : β → Prop}

theorem any (m : StateM σ α) : Always (fun _ => True) m :=
  fun _ => trivial

theorem pure {a : α} (h : P a) : Always P (Pure.pure a : StateM σ α) :=
  fun _ => h

theorem bind {m : StateM σ α} {f : α → StateM σ β} (hm : Always P m)
    (hf : ∀ a, P a → Always Q (f a)) : Always Q (m >>= f) :=
  fun s => hf _ (hm s) _

theorem choose (draws : Draws σ) (first : α) (others : List α) :
    Always (· ∈ first :: others) (draws.choose first others) :=
  (any _).bind fun i _ => pure (List.get_mem (first :: others) i)

end Always

/-- Induction over the steps of construction, when `grouping` is known of each draw on parentheses. -/
theorem always_formula {P : Nat → List Char → Prop} {grouping : Bool → Prop} {draws : Draws σ}
    {first : Char} {others : List Char}
    (hgrouping : Always grouping (draws.chance groupThreshold))
    (symbol : ∀ depth, ∀ c ∈ first :: others, P depth [c])
    (negation : ∀ depth line, P depth line → P (depth + 1) ('~' :: line))
    (joined : ∀ depth grouped c left right, grouping grouped → P depth left → P depth right →
      P (depth + 1) (joined grouped c left right))
    (depth : Nat) : Always (P depth) (formula draws first others depth) := by
  have hsymbol : ∀ depth, Always (P depth)
      (do let name ← draws.choose first others; return [name]) := by
    intro depth
    exact (Always.choose draws first others).bind fun name hname => .pure (symbol depth name hname)
  induction depth with
  | zero => exact hsymbol 0
  | succ depth ih =>
      rw [formula]
      refine (Always.any _).bind fun isSymbol _ => ?_
      split
      · exact hsymbol (depth + 1)
      · refine (Always.any _).bind fun isNegation _ => ?_
        split
        · exact ih.bind fun inner hinner => .pure (negation depth inner hinner)
        · refine (Always.any _).bind fun c _ => ?_
          refine ih.bind fun left hleft => ?_
          refine ih.bind fun right hright => ?_
          refine hgrouping.bind fun grouped hgrouped => .pure ?_
          exact joined depth grouped c left right hgrouped hleft hright

section

variable {set : SymbolSet} {first : Char} {others : List Char}
variable (hnames : ∀ c ∈ first :: others, c ∈ set.names ∧ c ≠ '#') (draws : Draws σ)
include hnames

theorem always_formulaLine (depth : Nat) :
    Always (FormulaLine set depth) (formula draws first others depth) :=
  always_formula (.any _) (fun _ c hc => .symbol (hnames c hc).1 (hnames c hc).2)
    (fun _ _ h => h.negation) (fun _ grouped c _ _ _ hl hr => hl.joined grouped c hr) depth

theorem always_formulaLines (depth count : Nat) :
    Always (fun lines => lines.length = count ∧ ∀ line ∈ lines, FormulaLine set depth line)
      (formulas draws first others depth count) := by
  induction count with
  | zero => exact .pure (by simp)
  | succ count ih =>
      rw [formulas]
      refine (always_formulaLine hnames draws depth).bind fun line hline => ?_
      refine ih.bind fun lines hlines => .pure ⟨?_, ?_⟩
      · rw [List.length_cons, hlines.1]
      · exact List.forall_mem_cons.2 ⟨hline, hlines.2⟩

end

end Generator

end TruthTables
