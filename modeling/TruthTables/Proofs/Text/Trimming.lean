import Mathlib.Data.List.TakeWhile
import Mathlib.Tactic.SplitIfs
import TruthTables.Text.Blank

set_option autoImplicit false

/-! # Trimming

Trimming takes blanks from the ends of a text and nothing else, and what is left has none there. A text
with a character that is no blank keeps all that stands in front of it. -/

namespace TruthTables.Text

/-- Dropping stops at a character that is not to be dropped. -/
theorem not_of_head?_dropWhile {p : Char → Bool} {cs : List Char} {c : Char}
    (h : (cs.dropWhile p).head? = some c) : p c = false := by
  have hnot := List.head?_dropWhile_not p cs
  rwa [h] at hnot

/-! ## Blanks at the end -/

theorem trimEnd_append_blanks {blanks : List Char} (h : ∀ c ∈ blanks, isBlank c = true)
    (cs : List Char) : trimEnd (cs ++ blanks) = trimEnd cs := by
  rw [trimEnd, List.reverse_append, List.dropWhile_append_of_pos, trimEnd]
  intro c hc
  exact h c (List.mem_reverse.1 hc)

theorem getLast?_trimEnd (cs : List Char) : ∀ c ∈ (trimEnd cs).getLast?, isBlank c = false := by
  intro c hc
  rw [trimEnd, List.getLast?_reverse] at hc
  exact not_of_head?_dropWhile hc

theorem mem_of_mem_trimEnd {cs : List Char} {c : Char} (h : c ∈ trimEnd cs) : c ∈ cs := by
  obtain ⟨blanks, hblanks, -⟩ := exists_blanks_of_trimEnd cs
  rw [hblanks]
  exact List.mem_append_left _ h

theorem trimEnd_ne_nil {cs : List Char} (h : ∃ c ∈ cs, isBlank c = false) : trimEnd cs ≠ [] := by
  intro hnil
  obtain ⟨c, hc, hsolid⟩ := h
  obtain ⟨blanks, hblanks, hall⟩ := exists_blanks_of_trimEnd cs
  rw [hblanks, hnil, List.nil_append] at hc
  exact absurd (hall c hc) (Bool.eq_false_iff.1 hsolid)

/-- Trimming the end does not reach beyond a character that is no blank. -/
theorem trimEnd_append {ds : List Char} (h : ∃ c ∈ ds, isBlank c = false) (cs : List Char) :
    trimEnd (cs ++ ds) = cs ++ trimEnd ds := by
  have hne : ds.reverse.dropWhile isBlank ≠ [] := mt List.reverse_eq_nil_iff.2 (trimEnd_ne_nil h)
  rw [trimEnd, List.reverse_append, List.dropWhile_append, if_neg (mt List.isEmpty_iff.1 hne),
    List.reverse_append, List.reverse_reverse, trimEnd]

/-! ## Blanks at both ends -/

/-- Trimming removes blanks at the ends and nothing else. -/
theorem exists_blanks_of_trim (cs : List Char) :
    ∃ before behind, cs = before ++ trim cs ++ behind ∧ ∀ c ∈ before ++ behind, isBlank c = true := by
  obtain ⟨behind, hbehind, hblank⟩ := exists_blanks_of_trimEnd (trimStart cs)
  refine ⟨cs.takeWhile isBlank, behind, ?_, ?_⟩
  · rw [List.append_assoc, trim, ← hbehind, trimStart, List.takeWhile_append_dropWhile]
  · intro c hc
    rcases List.mem_append.1 hc with hc | hc
    · exact List.all_eq_true.1 List.all_takeWhile c hc
    · exact hblank c hc

/-- Blanks at the ends do not survive trimming. -/
theorem trim_append_blanks {before behind : List Char} (h : ∀ c ∈ before ++ behind, isBlank c = true)
    (cs : List Char) : trim (before ++ cs ++ behind) = trim cs := by
  obtain ⟨hbefore, hbehind⟩ := List.forall_mem_append.1 h
  rw [trim, trimStart, List.append_assoc, List.dropWhile_append_of_pos hbefore, List.dropWhile_append,
    trim, trimStart]
  split_ifs with hempty
  · -- nothing but blanks: the blanks behind go already at the start
    have hnone : behind.dropWhile isBlank = [] := List.dropWhile_eq_nil_iff.2 hbehind
    rw [hnone, List.isEmpty_iff.1 hempty]
  · exact trimEnd_append_blanks hbehind _

theorem head?_trim (cs : List Char) : ∀ c ∈ (trim cs).head?, isBlank c = false := by
  intro c hc
  obtain ⟨behind, hbehind, -⟩ := exists_blanks_of_trimEnd (trimStart cs)
  have hstart : (trimStart cs).head? = some c := by
    rw [hbehind, List.head?_append, show (trimEnd (trimStart cs)).head? = some c from hc]
    rfl
  exact not_of_head?_dropWhile hstart

theorem getLast?_trim (cs : List Char) : ∀ c ∈ (trim cs).getLast?, isBlank c = false :=
  getLast?_trimEnd (trimStart cs)

end TruthTables.Text
