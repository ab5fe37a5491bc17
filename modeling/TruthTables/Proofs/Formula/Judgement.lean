import TruthTables.Proofs.Formula.Text

set_option autoImplicit false

/-! # What judging a text finds

`Verdict` says of a text what judging it reports, by the characters of the text and their positions, blanks
included. An unknown character counts before all else. Then something must be there, then it must begin
like a formula, and only then are the parentheses looked at. Of these it is the first place that is
reported where more groups are closed than opened, whatever comes behind it.

The parentheses are walked over once, with the number of open groups in hand. A walk has a text in front
of it and a text behind it; as long as the part in front closes no more than it opens, the number is the
difference of the two (`Walked`), and the end of the walk tells about the whole (`reports_checkBalance`). -/

namespace TruthTables

/-! ## Places in a text -/

/-- The character stands at this position and has the property, and no character in front of it has. -/
def FirstAt (P : Char → Prop) (cs : List Char) (c : Char) (i : Nat) : Prop :=
  cs[i]? = some c ∧ P c ∧ ∀ j < i, ∀ d, cs[j]? = some d → ¬ P d

theorem find?_zipIdx_eq_some_iff (p : Char → Bool) (cs : List Char) (c : Char) (i : Nat) :
    (cs.zipIdx.find? fun entry => p entry.1) = some (c, i) ↔ FirstAt (p · = true) cs c i := by
  rw [List.find?_eq_some_iff_getElem]
  constructor
  · rintro ⟨hc, j, hj, heq, hearlier⟩
    rw [List.length_zipIdx] at hj
    rw [List.getElem_zipIdx, Nat.zero_add, Prod.mk.injEq] at heq
    obtain ⟨rfl, rfl⟩ := heq
    refine ⟨List.getElem?_eq_getElem hj, hc, fun k hk d hd => ?_⟩
    obtain ⟨hlt, rfl⟩ := List.getElem?_eq_some_iff.1 hd
    simpa using hearlier k hk
  · rintro ⟨hc, hp, hearlier⟩
    obtain ⟨hi, rfl⟩ := List.getElem?_eq_some_iff.1 hc
    refine ⟨hp, i, by simpa using hi, by simp, fun j hj => ?_⟩
    have hlt : j < cs.length := Nat.lt_trans hj hi
    simpa using hearlier j hj cs[j] (List.getElem?_eq_getElem hlt)

/-- The first significant character with a property is the first of all characters to be significant and
    to have it. -/
theorem find?_significant_eq_some_iff (p : Char → Bool) (cs : List Char) (c : Char) (i : Nat) :
    ((significant cs).find? fun entry => p entry.1) = some (c, i) ↔
      FirstAt (fun d => Text.isBlank d = false ∧ p d = true) cs c i := by
  have hboth := find?_zipIdx_eq_some_iff (fun d => !Text.isBlank d && p d) cs c i
  simp only [Bool.and_eq_true, Bool.not_eq_true'] at hboth
  rw [← hboth, significant, List.find?_filter]
  simp

theorem exists_significant_eq_cons_iff (cs : List Char) (c : Char) (i : Nat) :
    (∃ rest, significant cs = (c, i) :: rest) ↔ FirstAt (Text.isBlank · = false) cs c i := by
  have hblank := find?_zipIdx_eq_some_iff (fun d => !Text.isBlank d) cs c i
  simp only [Bool.not_eq_true'] at hblank
  rw [← hblank, significant, ← List.head?_filter, List.head?_eq_some_iff]

/-- Whatever holds of the significant characters holds of the characters that are no blanks. -/
theorem forall_mem_significant_iff {P : Char → Prop} (cs : List Char) :
    (∀ entry ∈ significant cs, P entry.1) ↔ ∀ c ∈ cs, Text.isBlank c = false → P c := by
  constructor
  · intro h c hc hblank
    obtain ⟨i, hi⟩ := List.getElem?_of_mem hc
    have hmem : (c, i) ∈ cs.zipIdx := by
      refine List.mem_of_getElem? (i := i) ?_
      rw [List.getElem?_zipIdx, hi]
      simp
    exact h (c, i) (List.mem_filter.2 ⟨hmem, by simpa using hblank⟩)
  · intro h entry hentry
    obtain ⟨hmem, hblank⟩ := SymbolSet.char_of_mem_significant hentry
    exact h entry.1 hmem hblank

theorem significant_eq_nil_iff (cs : List Char) :
    significant cs = [] ↔ ∀ c ∈ cs, Text.isBlank c = true := by
  rw [List.eq_nil_iff_forall_not_mem]
  have hnone := forall_mem_significant_iff (P := fun _ => False) cs
  simpa using hnone

/-! ## Parentheses -/

/-- Up to this position more groups are closed than opened. -/
def Overdrawn (cs : List Char) (i : Nat) : Prop :=
  (cs.take (i + 1)).count '(' < (cs.take (i + 1)).count ')'

instance (cs : List Char) (i : Nat) : Decidable (Overdrawn cs i) :=
  inferInstanceAs (Decidable (_ < _))

theorem overdrawn_append_iff {front : List Char} {i : Nat} (hi : i < front.length)
    (behind : List Char) : Overdrawn (front ++ behind) i ↔ Overdrawn front i := by
  rw [Overdrawn, Overdrawn, List.take_append_of_le_length hi]

theorem overdrawn_concat_iff (front : List Char) (c : Char) :
    Overdrawn (front ++ [c]) front.length ↔
      (front ++ [c]).count '(' < (front ++ [c]).count ')' := by
  rw [Overdrawn, List.take_of_length_le (by simp)]

/-- What a walk over the parentheses reports, told by the whole text. -/
def Imbalance.Reports (cs : List Char) : Except Imbalance Unit → Prop
  | .ok () => (∀ i, ¬ Overdrawn cs i) ∧ cs.count '(' = cs.count ')'
  | .error (.frontLoaded i) => Overdrawn cs i ∧ ∀ j < i, ¬ Overdrawn cs j
  | .error (.unclosed n) => (∀ i, ¬ Overdrawn cs i) ∧ 0 < n ∧ cs.count '(' = cs.count ')' + n

theorem Imbalance.Reports.unique {cs : List Char} {r r' : Except Imbalance Unit}
    (h : Reports cs r) (h' : Reports cs r') : r = r' := by
  rcases r with (i | n) | _ <;> rcases r' with (j | m) | _
  · -- two first positions are one
    rcases Nat.lt_trichotomy i j with hlt | rfl | hgt
    · exact absurd h.1 (h'.2 i hlt)
    · rfl
    · exact absurd h'.1 (h.2 j hgt)
  · exact absurd h.1 (h'.1 i)
  · exact absurd h.1 (h'.1 i)
  · exact absurd h'.1 (h.1 j)
  · obtain rfl : n = m := Nat.add_left_cancel (h.2.2.symm.trans h'.2.2)
    rfl
  · obtain ⟨-, hpos, hcount⟩ := h
    have hcount' := h'.2
    omega
  · exact absurd h'.1 (h.1 j)
  · obtain ⟨-, hpos, hcount⟩ := h'
    have hcount' := h.2
    omega
  · rfl

/-- The walk has come this far with so many groups open. -/
structure Walked (depth : Nat) (front : List Char) : Prop where
  open_groups : depth + front.count ')' = front.count '('
  clean : ∀ i < front.length, ¬ Overdrawn front i

namespace Walked

variable {depth depth' : Nat} {front : List Char}

theorem nil : Walked 0 [] where
  open_groups := rfl
  clean := by simp

/-- One character further, as long as the number of open groups is right. -/
theorem concat (h : Walked depth front) {c : Char}
    (hopen : depth' + (front ++ [c]).count ')' = (front ++ [c]).count '(') :
    Walked depth' (front ++ [c]) where
  open_groups := hopen
  clean := by
    intro i hi
    rw [List.length_append, List.length_singleton, Nat.lt_succ_iff_lt_or_eq] at hi
    rcases hi with hi | rfl
    · rw [overdrawn_append_iff hi]
      exact h.clean i hi
    · rw [overdrawn_concat_iff]
      omega

theorem not_overdrawn (h : Walked depth front) (i : Nat) : ¬ Overdrawn front i := by
  rcases Nat.lt_or_ge i front.length with hi | hi
  · exact h.clean i hi
  · rw [Overdrawn, List.take_of_length_le (Nat.le_succ_of_le hi), ← h.open_groups]
    omega

end Walked

/-- From wherever a walk has come, its end tells about the whole text. -/
theorem reports_checkBalance {depth : Nat} {front : List Char} (h : Walked depth front)
    (behind : List Char) :
    Imbalance.Reports (front ++ behind) (checkBalance depth (behind.zipIdx front.length)) := by
  induction behind generalizing depth front with
  | nil =>
      have hopen := h.open_groups
      rw [List.append_nil, List.zipIdx_nil]
      cases depth with
      | zero => exact ⟨h.not_overdrawn, by omega⟩
      | succ depth => exact ⟨h.not_overdrawn, by omega, by omega⟩
  | cons c behind ih =>
      have hopen := h.open_groups
      -- the walk goes on with whatever number of open groups is right behind `c`
      have hstep : ∀ depth', depth' + (front ++ [c]).count ')' = (front ++ [c]).count '(' →
          Imbalance.Reports (front ++ c :: behind)
            (checkBalance depth' (behind.zipIdx (front.length + 1))) := by
        intro depth' hdepth
        have hrest := ih (h.concat hdepth)
        rwa [List.append_assoc, List.length_append] at hrest
      simp only [List.count_append, List.count_singleton] at hstep
      rw [List.zipIdx_cons, SymbolSet.checkBalance_cons]
      by_cases hopening : c = '('
      · subst hopening
        rw [if_pos rfl]
        exact hstep (depth + 1) (by simp; omega)
      · rw [if_neg hopening]
        by_cases hclosing : c = ')'
        · subst hclosing
          rw [if_pos rfl]
          cases depth with
          | zero =>
              refine ⟨?_, fun j hj => ?_⟩
              · rw [List.append_cons, overdrawn_append_iff (by simp),
                  overdrawn_concat_iff]
                simp
                omega
              · rw [overdrawn_append_iff hj]
                exact h.clean j hj
          | succ depth => exact hstep depth (by simp; omega)
        · rw [if_neg hclosing]
          exact hstep depth (by simp [hopening, hclosing]; omega)

/-- The walk passes over blanks. -/
theorem checkBalance_filter (depth : Nat) (entries : List (Char × Nat)) :
    checkBalance depth (entries.filter fun entry => !Text.isBlank entry.1) =
      checkBalance depth entries := by
  induction entries generalizing depth with
  | nil => rfl
  | cons entry entries ih =>
      obtain ⟨c, i⟩ := entry
      cases hblank : Text.isBlank c with
      | true =>
          have hopening : c ≠ '(' := by
            rintro rfl
            exact absurd hblank (by decide)
          have hclosing : c ≠ ')' := by
            rintro rfl
            exact absurd hblank (by decide)
          rw [List.filter_cons_of_neg (by simp [hblank]), ih, SymbolSet.checkBalance_cons,
            if_neg hopening, if_neg hclosing]
      | false =>
          rw [List.filter_cons_of_pos (by simp [hblank])]
          simp only [SymbolSet.checkBalance_cons, ih]

theorem checkBalance_significant_eq_iff (cs : List Char) (r : Except Imbalance Unit) :
    checkBalance 0 (significant cs) = r ↔ Imbalance.Reports cs r := by
  have hreports : Imbalance.Reports cs (checkBalance 0 (significant cs)) := by
    rw [significant, checkBalance_filter]
    exact reports_checkBalance .nil cs
  constructor
  · rintro rfl
    exact hreports
  · exact hreports.unique

/-! ## Verdicts -/

namespace SymbolSet

variable (set : SymbolSet) (cs : List Char)

/-- A character is declared or reserved. -/
def Knows (c : Char) : Prop :=
  c ∈ set.names ∨ c ∈ reserved

/-- A formula can begin with this character. -/
def CanStart (c : Char) : Prop :=
  c ∈ set.names ∨ c = '~' ∨ c = '('

/-- Every character but blanks is declared or reserved. -/
def KnowsAll : Prop :=
  ∀ c ∈ cs, Text.isBlank c = false → set.Knows c

/-- The first character that is no blank can begin a formula. -/
def Starts : Prop :=
  ∃ c i, FirstAt (Text.isBlank · = false) cs c i ∧ set.CanStart c

/-- What judging a text reports, told by its characters. -/
def Verdict : Except FormulaFault Unit → Prop
  | .ok () => set.KnowsAll cs ∧ set.Starts cs ∧ Imbalance.Reports cs (.ok ())
  | .error (.illegalCharacter c i) => FirstAt (fun d => Text.isBlank d = false ∧ ¬ set.Knows d) cs c i
  | .error .empty => set.KnowsAll cs ∧ ∀ c ∈ cs, Text.isBlank c = true
  | .error (.firstCharacter c) =>
    set.KnowsAll cs ∧ (∃ i, FirstAt (Text.isBlank · = false) cs c i) ∧ ¬ set.CanStart c
  | .error (.parentheses imbalance) =>
    set.KnowsAll cs ∧ set.Starts cs ∧ Imbalance.Reports cs (.error imbalance)

variable {set cs}

theorem isKnown_iff {c : Char} : set.isKnown c = true ↔ set.Knows c := by
  rw [isKnown, Bool.or_eq_true, contains, isReserved, List.contains_iff_mem, List.contains_iff_mem,
    Knows]

theorem contains_or_canBegin_iff_canStart {c : Char} :
    (set.contains c || canBegin c) = true ↔ set.CanStart c := by
  rw [Bool.or_eq_true, contains, List.contains_iff_mem, canBegin, Bool.or_eq_true, beq_iff_eq,
    beq_iff_eq, CanStart]

theorem find?_significant_eq_none_iff :
    ((significant cs).find? fun entry => !set.isKnown entry.1) = none ↔ set.KnowsAll cs := by
  rw [KnowsAll, ← forall_mem_significant_iff, List.find?_eq_none]
  simp [isKnown_iff]

theorem verdict_checkText (set : SymbolSet) (text : String) :
    set.Verdict text.toList (set.checkText text) := by
  unfold checkText checkSignificant
  split
  · next c i hfind =>
      have hfirst := (find?_significant_eq_some_iff (fun d => !set.isKnown d) _ c i).1 hfind
      simpa only [Verdict, Bool.not_eq_true', ← Bool.not_eq_true, isKnown_iff] using hfirst
  · next hnone =>
      have hknown := find?_significant_eq_none_iff.1 hnone
      split
      · next hnil => exact ⟨hknown, (significant_eq_nil_iff _).1 hnil⟩
      · next c i rest hchars =>
          have hfirst := (exists_significant_eq_cons_iff _ c i).1 ⟨rest, hchars⟩
          split_ifs with hstart
          · rw [contains_or_canBegin_iff_canStart] at hstart
            split
            · next imbalance hbalance =>
                rw [checkBalance_significant_eq_iff] at hbalance
                exact ⟨hknown, ⟨c, i, hfirst, hstart⟩, hbalance⟩
            · next hbalance =>
                rw [checkBalance_significant_eq_iff] at hbalance
                exact ⟨hknown, ⟨c, i, hfirst, hstart⟩, hbalance⟩
          · rw [contains_or_canBegin_iff_canStart] at hstart
            exact ⟨hknown, ⟨i, hfirst⟩, hstart⟩

/-- A text that begins like a formula and has no unknown character is judged by its parentheses. -/
theorem checkSignificant_of_starts (hknown : set.KnowsAll cs) (hstarts : set.Starts cs) :
    set.checkSignificant (significant cs) =
      (checkBalance 0 (significant cs)).mapError .parentheses := by
  obtain ⟨c, i, hfirst, hstart⟩ := hstarts
  obtain ⟨rest, hchars⟩ := (exists_significant_eq_cons_iff cs c i).2 hfirst
  unfold checkSignificant
  rw [find?_significant_eq_none_iff.2 hknown, hchars]
  simp only [contains_or_canBegin_iff_canStart.2 hstart, if_true]
  cases checkBalance 0 ((c, i) :: rest) <;> rfl

/-- Judging a text reports its verdict. It is in order if it has a significant character, all significant
    characters are declared or reserved, the first of them can begin a formula, no prefix closes more
    groups than it opens, and in all as many are closed as opened. -/
theorem checkText_reports_verdict (set : SymbolSet) (text : String) (r : Except FormulaFault Unit) :
    set.checkText text = r ↔ set.Verdict text.toList r := by
  constructor
  · rintro rfl
    exact verdict_checkText set text
  · intro h
    unfold checkText
    rcases r with (_ | c | ⟨c, i⟩ | imbalance) | _
    · obtain ⟨hknown, hblank⟩ := h
      unfold checkSignificant
      rw [find?_significant_eq_none_iff.2 hknown, (significant_eq_nil_iff _).2 hblank]
    · obtain ⟨hknown, ⟨i, hfirst⟩, hstart⟩ := h
      obtain ⟨rest, hchars⟩ := (exists_significant_eq_cons_iff _ c i).2 hfirst
      unfold checkSignificant
      rw [find?_significant_eq_none_iff.2 hknown, hchars]
      rw [← contains_or_canBegin_iff_canStart] at hstart
      simp only [hstart]
      rfl
    · have hfirst : FirstAt (fun d => Text.isBlank d = false ∧ (!set.isKnown d) = true)
          text.toList c i := by
        simpa only [Verdict, Bool.not_eq_true', ← Bool.not_eq_true, isKnown_iff] using h
      have hfind := (find?_significant_eq_some_iff (fun d => !set.isKnown d) _ c i).2 hfirst
      unfold checkSignificant
      rw [hfind]
    · obtain ⟨hknown, hstarts, hreports⟩ := h
      rw [checkSignificant_of_starts hknown hstarts,
        (checkBalance_significant_eq_iff _ _).2 hreports]
      rfl
    · obtain ⟨hknown, hstarts, hreports⟩ := h
      rw [checkSignificant_of_starts hknown hstarts,
        (checkBalance_significant_eq_iff _ _).2 hreports]
      rfl

/-- The first `)` that comes too early is reported, though a group is opened behind it, and its position
    counts the blank in front of the text. -/
theorem checkText_reports_early_closing :
    ∃ set, ofList ["p"] = .ok set ∧
      set.checkText " p)(" = .error (.parentheses (.frontLoaded 2)) := by
  refine ⟨_, rfl, (checkText_reports_verdict _ _ _).2 ⟨?_, ⟨'p', 1, ⟨rfl, by decide, ?_⟩, ?_⟩, ?_⟩⟩
  · intro c hc hblank
    have hchars : c ∈ [' ', 'p', ')', '('] := hc
    simp only [List.mem_cons, List.not_mem_nil, or_false] at hchars
    rcases hchars with rfl | rfl | rfl | rfl
    · exact absurd hblank (by decide)
    · exact .inl (List.mem_singleton_self 'p')
    · exact .inr (by decide)
    · exact .inr (by decide)
  · intro j hj d hd
    obtain rfl : j = 0 := Nat.lt_one_iff.1 hj
    obtain rfl : ' ' = d := Option.some.inj hd
    decide
  · exact .inl (List.mem_singleton_self 'p')
  · show Overdrawn [' ', 'p', ')', '('] 2 ∧ ∀ j < 2, ¬ Overdrawn [' ', 'p', ')', '('] j
    decide

end SymbolSet

end TruthTables
