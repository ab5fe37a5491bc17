import Mathlib.Data.List.Basic
import TruthTables.Proofs.Text.Trimming
import TruthTables.Table.Layout

set_option autoImplicit false

/-! # Places in an aligned table

Every line of an aligned table has its columns at the same places, which the widths of the columns in front
tell (`offset`). Lines are joined from parts with two spaces between, so what stands at a column's place is
the column's part (`drop_intercalate`), and all else is a space (`getElem?_intercalate`). Trimming takes
nothing but the padding behind the last part, because that part is not blank. -/

namespace TruthTables.Table

namespace Layout

/-- The place of a column's first character. Each column in front of it has two spaces behind it. -/
def offset : List Nat → Nat → Nat
  | width :: widths, j + 1 => width + 2 + offset widths j
  | _, _ => 0

@[simp]
theorem offset_zero (widths : List Nat) : offset widths 0 = 0 := by
  cases widths <;> rfl

@[simp]
theorem offset_cons (width : Nat) (widths : List Nat) (j : Nat) :
    offset (width :: widths) (j + 1) = width + 2 + offset widths j :=
  rfl

/-- A column's place depends on the columns in front of it alone. -/
theorem offset_append {widths : List Nat} {j : Nat} (h : j ≤ widths.length) (rest : List Nat) :
    offset (widths ++ rest) j = offset widths j := by
  induction widths generalizing j with
  | nil =>
      obtain rfl := Nat.le_zero.1 h
      rw [offset_zero, offset_zero]
  | cons width widths ih =>
      cases j with
      | zero => rw [offset_zero, offset_zero]
      | succ j => rw [List.cons_append, offset_cons, offset_cons, ih (Nat.le_of_succ_le_succ h)]

/-! ## Parts with spaces between -/

theorem intercalate_cons_eq (part : List Char) (parts : List (List Char)) :
    List.intercalate [' ', ' '] (part :: parts) = part ++ parts.flatMap ([' ', ' '] ++ ·) := by
  induction parts generalizing part with
  | nil => simp
  | cons next parts ih =>
      rw [List.intercalate_cons_cons, ih, List.flatMap_cons, List.append_assoc, List.append_assoc]

theorem intercalate_concat (parts : List (List Char)) (part : List Char) :
    List.intercalate [' ', ' '] (parts ++ [part]) = parts.flatMap (· ++ [' ', ' ']) ++ part := by
  induction parts with
  | nil => simp
  | cons first parts ih =>
      have hne : parts ++ [part] ≠ [] := by simp
      rw [List.cons_append, List.intercalate_cons_of_ne_nil hne, ih, List.flatMap_cons,
        List.append_assoc _ _ part]

/-- At a column's place stands its part, and then the parts behind it. -/
theorem drop_intercalate {parts : List (List Char)} {j : Nat} {part : List Char}
    (h : parts[j]? = some part) :
    (List.intercalate [' ', ' '] parts).drop (offset (parts.map List.length) j) =
      part ++ (parts.drop (j + 1)).flatMap ([' ', ' '] ++ ·) := by
  induction parts generalizing j with
  | nil => exact absurd h (by simp)
  | cons first parts ih =>
      cases j with
      | zero =>
          cases h
          exact intercalate_cons_eq ..
      | succ j =>
          rw [List.getElem?_cons_succ] at h
          have hne : parts ≠ [] := by
            rintro rfl
            exact absurd h (by simp)
          have hlength : first.length + 2 = (first ++ [' ', ' ']).length := by simp
          rw [List.intercalate_cons_of_ne_nil hne, List.map_cons, offset_cons, hlength,
            List.drop_length_add_append, ih h, List.drop_succ_cons]

/-- A character of a line is one of a column's part, or a space between two. -/
theorem getElem?_intercalate {parts : List (List Char)} {i : Nat} {c : Char}
    (h : (List.intercalate [' ', ' '] parts)[i]? = some c) :
    c = ' ' ∨ ∃ j k part, parts[j]? = some part ∧ part[k]? = some c ∧
      i = offset (parts.map List.length) j + k := by
  induction parts generalizing i with
  | nil => exact absurd h (by simp)
  | cons first parts ih =>
      by_cases hnone : parts = []
      · subst hnone
        rw [List.intercalate_singleton] at h
        exact .inr ⟨0, i, first, rfl, h, by simp⟩
      rw [List.intercalate_cons_of_ne_nil hnone] at h
      -- the place is in the first part, in the spaces behind it, or in the columns behind these
      by_cases hfirst : i < first.length
      · rw [List.append_assoc, List.getElem?_append_left hfirst] at h
        exact .inr ⟨0, i, first, rfl, h, by simp⟩
      by_cases hgap : i < first.length + 2
      · left
        rw [List.getElem?_append_left (by simpa using hgap), List.getElem?_append_right (by omega)] at h
        have hmem : c ∈ [' ', ' '] := List.mem_of_getElem? h
        simpa using hmem
      · rw [List.getElem?_append_right (by simpa using hgap)] at h
        rcases ih h with rfl | ⟨j, k, part, hpart, hc, hi⟩
        · exact .inl rfl
        · refine .inr ⟨j + 1, k, part, hpart, hc, ?_⟩
          have hlength : (first ++ [' ', ' ']).length = first.length + 2 := by simp
          rw [List.map_cons, offset_cons]
          omega

/-! ## Padding and trimming -/

theorem trimEnd_pad (width : Nat) (cell : List Char) :
    Text.trimEnd (Text.pad .left ' ' width cell) = Text.trimEnd cell := by
  refine Text.trimEnd_append_blanks ?_ cell
  intro c hc
  rw [List.eq_of_mem_replicate hc]
  rfl

/-- Of the padding only what stands behind the last cell is trimmed. -/
theorem trimEnd_join {widths : List Nat} {cells : List (List Char)}
    (hlength : widths.length = cells.length) (width : Nat) {cell : List Char}
    (hsolid : ∃ c ∈ cell, Text.isBlank c = false) :
    Text.trimEnd (join (widths ++ [width]) (cells ++ [cell])) =
      List.intercalate [' ', ' ']
        (List.zipWith (Text.pad .left ' ') widths cells ++ [Text.trimEnd cell]) := by
  have hpadded : ∃ c ∈ Text.pad .left ' ' width cell, Text.isBlank c = false := by
    obtain ⟨c, hc, hblank⟩ := hsolid
    exact ⟨c, List.mem_append_left _ hc, hblank⟩
  rw [join, List.zipWith_append hlength, List.zipWith_cons_cons, List.zipWith_nil_left,
    intercalate_concat, Text.trimEnd_append hpadded, trimEnd_pad, intercalate_concat]

/-! ## Parts at the places of their columns -/

section

variable {parts : List (List Char)} {part : List Char} {widths : List Nat} {j : Nat}

/-- Behind a part that is not the last there are two spaces. -/
theorem isPrefix_drop_intercalate (h : parts[j]? = some part) (hj : j + 1 < parts.length) :
    part ++ [' ', ' '] <+: (List.intercalate [' ', ' '] parts).drop (offset (parts.map List.length) j) := by
  rw [drop_intercalate h, List.drop_eq_getElem_cons hj, List.flatMap_cons, ← List.append_assoc,
    ← List.append_assoc, List.append_assoc]
  exact List.prefix_append ..

/-- Behind the last part there is nothing. -/
theorem drop_intercalate_last (h : parts[j]? = some part) (hj : j + 1 = parts.length) :
    (List.intercalate [' ', ' '] parts).drop (offset (parts.map List.length) j) = part := by
  rw [drop_intercalate h, hj, List.drop_length]
  exact List.append_nil part

/-- The width of the last part says nothing about places. -/
theorem offset_map_length_concat (hwidths : parts.map List.length = widths) (hj : j ≤ parts.length)
    (width : Nat) : offset ((parts ++ [part]).map List.length) j = offset (widths ++ [width]) j := by
  have hlength : j ≤ (parts.map List.length).length := by rwa [List.length_map]
  rw [← hwidths, List.map_append, offset_append hlength, offset_append hlength]

end

/-! ## The line of names -/

/-- The names stand at the places of their columns, with two spaces between, and the last without the
    blanks at its end. -/
structure NamesLine (headers : List (List Char)) (cs : List Char) : Prop where
  name : ∀ j header, headers[j]? = some header → j + 1 < headers.length →
    header ++ [' ', ' '] <+: cs.drop (offset (headers.map columnWidth) j)
  last : ∀ j header, headers[j]? = some header → j + 1 = headers.length →
    cs.drop (offset (headers.map columnWidth) j) = Text.trimEnd header

theorem columnWidth_eq {header : List Char} (h : ∃ c ∈ header, Text.isBlank c = false) :
    columnWidth header = header.length := by
  obtain ⟨c, hc, -⟩ := h
  exact Nat.max_eq_left (List.length_pos_of_mem hc)

theorem pad_columnWidth {header : List Char} (h : ∃ c ∈ header, Text.isBlank c = false) :
    Text.pad .left ' ' (columnWidth header) header = header := by
  rw [columnWidth_eq h, Text.pad, Nat.sub_self]
  exact List.append_nil header

theorem zipWith_pad_headers {headers : List (List Char)}
    (h : ∀ header ∈ headers, ∃ c ∈ header, Text.isBlank c = false) :
    List.zipWith (Text.pad .left ' ') (headers.map columnWidth) headers = headers := by
  induction headers with
  | nil => rfl
  | cons header headers ih =>
      obtain ⟨hheader, hheaders⟩ := List.forall_mem_cons.1 h
      rw [List.map_cons, List.zipWith_cons_cons, pad_columnWidth hheader, ih hheaders]

theorem namesLine_trimEnd {headers : List (List Char)} (hne : headers ≠ [])
    (h : ∀ header ∈ headers, ∃ c ∈ header, Text.isBlank c = false) :
    NamesLine headers (Text.trimEnd (join (headers.map columnWidth) headers)) := by
  obtain rfl | ⟨front, final, rfl⟩ := List.eq_nil_or_concat' headers
  · exact absurd rfl hne
  obtain ⟨hfront, hlast⟩ := List.forall_mem_append.1 h
  have hfinal : ∃ c ∈ final, Text.isBlank c = false := hlast final (List.mem_singleton_self final)
  have hwidths : front.map List.length = front.map columnWidth :=
    List.map_congr_left fun header hmem => (columnWidth_eq (hfront header hmem)).symm
  rw [List.map_append, List.map_singleton, trimEnd_join (List.length_map _) _ hfinal,
    zipWith_pad_headers hfront]
  have hlength : (front ++ [Text.trimEnd final]).length = (front ++ [final]).length := by simp
  constructor
  · intro j header hj hlt
    have hfront : j < front.length := by simpa using hlt
    have hpart : (front ++ [Text.trimEnd final])[j]? = some header := by
      rwa [List.getElem?_append_left hfront] at hj ⊢
    rw [List.map_append, List.map_singleton, ← offset_map_length_concat hwidths hfront.le]
    exact isPrefix_drop_intercalate hpart (hlength ▸ hlt)
  · intro j header hj hlast
    have hfront : j = front.length := by simpa using hlast
    subst hfront
    rw [List.getElem?_concat_length] at hj
    cases hj
    rw [List.map_append, List.map_singleton, ← offset_map_length_concat hwidths le_rfl]
    exact drop_intercalate_last List.getElem?_concat_length (hlength.trans hlast.symm).symm

/-! ## The rule -/

/-- A run of dashes as long as a column is wide. -/
def dashes (header : List Char) : List Char :=
  List.replicate (columnWidth header) '-'

/-- Below each name there is a run of dashes, with two spaces between. -/
structure RuleLine (headers : List (List Char)) (cs : List Char) : Prop where
  run : ∀ j header, headers[j]? = some header → j + 1 < headers.length →
    dashes header ++ [' ', ' '] <+: cs.drop (offset (headers.map columnWidth) j)
  last : ∀ j header, headers[j]? = some header → j + 1 = headers.length →
    cs.drop (offset (headers.map columnWidth) j) = dashes header

theorem rule_eq (headers : List (List Char)) :
    rule (headers.map columnWidth) = List.intercalate [' ', ' '] (headers.map dashes) := by
  rw [rule, List.map_map]
  rfl

theorem ruleLine_rule (headers : List (List Char)) : RuleLine headers (rule (headers.map columnWidth)) := by
  have hwidths : (headers.map dashes).map List.length = headers.map columnWidth := by
    rw [List.map_map]
    exact List.map_congr_left fun header _ => List.length_replicate
  have hpart : ∀ (j : Nat) (header : List Char), headers[j]? = some header →
      (headers.map dashes)[j]? = some (dashes header) := by
    intro j header h
    rw [List.getElem?_map, h]
    rfl
  rw [rule_eq]
  constructor
  · intro j header hj hlt
    rw [← hwidths]
    exact isPrefix_drop_intercalate (hpart j header hj) (by rwa [List.length_map])
  · intro j header hj hlast
    rw [← hwidths]
    exact drop_intercalate_last (hpart j header hj) (by rwa [List.length_map])

/-! ## The lines of values -/

/-- At the place of each column stands the mark of its value, at all other places a space, and behind the
    last mark nothing. -/
structure RowLine (headers : List (List Char)) (values : List Bool) (cs : List Char) : Prop where
  cell : ∀ j value, values[j]? = some value →
    cs[offset (headers.map columnWidth) j]? = some (mark value)
  blank : ∀ i c, cs[i]? = some c →
    (∀ j < values.length, i ≠ offset (headers.map columnWidth) j) → c = ' '
  last : ∀ j, j + 1 = values.length → cs.length = offset (headers.map columnWidth) j + 1

theorem isBlank_mark (value : Bool) : Text.isBlank (mark value) = false := by
  cases value <;> rfl

/-- The parts of a line of values, all but the last. -/
def frontParts (front : List (List Char)) (before : List Bool) : List (List Char) :=
  List.zipWith (Text.pad .left ' ') (front.map columnWidth) (before.map fun value => [mark value])

/-- The parts of a line of values. The last has no padding. -/
def rowParts (front : List (List Char)) (before : List Bool) (value : Bool) : List (List Char) :=
  frontParts front before ++ [[mark value]]

section

variable {front : List (List Char)} {before : List Bool} (hlength : front.length = before.length)

include hlength

theorem length_frontParts : (frontParts front before).length = before.length := by
  simp [frontParts, hlength]

theorem length_rowParts (value : Bool) :
    (rowParts front before value).length = (before ++ [value]).length := by
  simp [rowParts, length_frontParts hlength]

theorem map_length_frontParts : (frontParts front before).map List.length = front.map columnWidth := by
  apply List.ext_getElem
  · simp [frontParts, hlength]
  · intro i _ _
    simp [frontParts, Text.length_pad, columnWidth]

/-- A part of a line of values is a mark with spaces behind it. -/
theorem getElem?_rowParts (value : Bool) (j : Nat) :
    ∃ n, (rowParts front before value)[j]? =
      (before ++ [value])[j]?.map fun value => mark value :: List.replicate n ' ' := by
  have hparts := length_frontParts hlength
  rw [rowParts]
  by_cases hj : j < before.length
  · have hfront : j < front.length := hlength ▸ hj
    refine ⟨columnWidth front[j] - 1, ?_⟩
    rw [List.getElem?_append_left (hparts ▸ hj), List.getElem?_append_left hj, frontParts,
      List.getElem?_zipWith, List.getElem?_map, List.getElem?_map, List.getElem?_eq_getElem hfront,
      List.getElem?_eq_getElem hj]
    rfl
  · refine ⟨0, ?_⟩
    rw [List.getElem?_append_right (by omega), List.getElem?_append_right (by omega), hparts,
      ← List.getElem?_map]
    rfl

theorem offset_rowParts (value : Bool) (final : List Char) {j : Nat} (hj : j ≤ before.length) :
    offset ((rowParts front before value).map List.length) j =
      offset ((front ++ [final]).map columnWidth) j := by
  have hparts : j ≤ (frontParts front before).length := (length_frontParts hlength).symm ▸ hj
  rw [rowParts, offset_map_length_concat (map_length_frontParts hlength) hparts, List.map_append]
  rfl

theorem rowLine_rowParts (value : Bool) (final : List Char) :
    RowLine (front ++ [final]) (before ++ [value])
      (List.intercalate [' ', ' '] (rowParts front before value)) := by
  have hplace : ∀ j < (before ++ [value]).length,
      offset ((rowParts front before value).map List.length) j =
        offset ((front ++ [final]).map columnWidth) j := by
    intro j hj
    rw [List.length_append] at hj
    exact offset_rowParts hlength value final (Nat.le_of_lt_succ hj)
  constructor
  · intro j shown hshown
    obtain ⟨n, hpart⟩ := getElem?_rowParts hlength value j
    rw [hshown] at hpart
    rw [← hplace j (List.getElem?_eq_some_iff.1 hshown).1, ← List.head?_drop, drop_intercalate hpart]
    rfl
  · intro i c hc hplaces
    rcases getElem?_intercalate hc with rfl | ⟨j, k, part, hpart, hc, hi⟩
    · rfl
    obtain ⟨n, hj⟩ := getElem?_rowParts hlength value j
    rw [hpart] at hj
    obtain ⟨shown, hshown, rfl⟩ := Option.map_eq_some_iff.1 hj.symm
    have hlt : j < (before ++ [value]).length := (List.getElem?_eq_some_iff.1 hshown).1
    cases k with
    | zero =>
        -- the first character of a part is at the column's place
        exact absurd (hi.trans (hplace j hlt)) (hplaces j hlt)
    | succ k =>
        rw [List.getElem?_cons_succ] at hc
        exact List.eq_of_mem_replicate (List.mem_of_getElem? hc)
  · intro j hj
    have hlast : j = before.length := by simpa using hj
    have hpart : (rowParts front before value)[j]? = some [mark value] := by
      rw [hlast, ← length_frontParts hlength]
      exact List.getElem?_concat_length
    have hdrop := congrArg List.length
      (drop_intercalate_last hpart (hj.trans (length_rowParts hlength value).symm))
    rw [List.length_drop, List.length_singleton, hplace j (by omega)] at hdrop
    omega

end

theorem rowLine_trimEnd {headers : List (List Char)} {values : List Bool}
    (hlength : headers.length = values.length) (hne : headers ≠ []) :
    RowLine headers values
      (Text.trimEnd (join (headers.map columnWidth) (values.map fun value => [mark value]))) := by
  obtain rfl | ⟨front, final, rfl⟩ := List.eq_nil_or_concat' headers
  · exact absurd rfl hne
  obtain rfl | ⟨before, value, rfl⟩ := List.eq_nil_or_concat' values
  · exact absurd hlength (by simp)
  have hfront : front.length = before.length := by simpa using hlength
  have hsolid : ∃ c ∈ [mark value], Text.isBlank c = false :=
    ⟨mark value, List.mem_singleton_self _, isBlank_mark value⟩
  have htrimmed : Text.trimEnd [mark value] = [mark value] := by
    cases value <;> rfl
  rw [List.map_append, List.map_append, List.map_singleton, List.map_singleton,
    trimEnd_join (by simp [hfront]) _ hsolid, htrimmed]
  exact rowLine_rowParts hfront value final

/-! ## Lines and their ends -/

/-- A line has no characters but those of its parts and spaces. -/
theorem mem_intercalate {parts : List (List Char)} {c : Char}
    (h : c ∈ List.intercalate [' ', ' '] parts) : c = ' ' ∨ ∃ part ∈ parts, c ∈ part := by
  obtain ⟨i, hi⟩ := List.mem_iff_getElem?.1 h
  rcases getElem?_intercalate hi with rfl | ⟨j, k, part, hpart, hc, -⟩
  · exact .inl rfl
  · exact .inr ⟨part, List.mem_of_getElem? hpart, List.mem_of_getElem? hc⟩

theorem mem_join {widths : List Nat} {cells : List (List Char)} {c : Char} (h : c ∈ join widths cells) :
    c = ' ' ∨ ∃ cell ∈ cells, c ∈ cell := by
  rcases mem_intercalate h with rfl | ⟨part, hpart, hc⟩
  · exact .inl rfl
  obtain ⟨j, hj⟩ := List.mem_iff_getElem?.1 hpart
  obtain ⟨width, cell, -, hcell, rfl⟩ := List.getElem?_zipWith_eq_some.1 hj
  rcases List.mem_append.1 hc with hc | hc
  · exact .inr ⟨cell, List.mem_of_getElem? hcell, hc⟩
  · exact .inl (List.eq_of_mem_replicate hc)

theorem mem_rule {headers : List (List Char)} {c : Char} (h : c ∈ rule (headers.map columnWidth)) :
    c = ' ' ∨ c = '-' := by
  rw [rule_eq] at h
  rcases mem_intercalate h with rfl | ⟨part, hpart, hc⟩
  · exact .inl rfl
  obtain ⟨header, -, rfl⟩ := List.mem_map.1 hpart
  exact .inr (List.eq_of_mem_replicate hc)

/-- If no cell holds a line feed, the line is read back as it is: a carriage return at its end would be
    trimmed. -/
theorem isLine_trimEnd {widths : List Nat} {cells : List (List Char)} (h : ∀ cell ∈ cells, '\n' ∉ cell) :
    '\n' ∉ Text.trimEnd (join widths cells) ∧
      (Text.trimEnd (join widths cells)).getLast? ≠ some '\r' := by
  constructor
  · intro hmem
    rcases mem_join (Text.mem_of_mem_trimEnd hmem) with hspace | ⟨cell, hcell, hc⟩
    · exact absurd hspace (by decide)
    · exact h cell hcell hc
  · intro hlast
    exact absurd (Text.getLast?_trimEnd _ _ hlast) (by decide)

theorem isLine_rule (headers : List (List Char)) :
    '\n' ∉ rule (headers.map columnWidth) ∧
      (rule (headers.map columnWidth)).getLast? ≠ some '\r' := by
  constructor
  · intro hmem
    exact absurd (mem_rule hmem) (by decide)
  · intro hlast
    exact absurd (mem_rule (List.mem_of_getLast? hlast)) (by decide)

end Layout

theorem isLine_of_mem_layoutLines {t : Table} (h : ∀ header ∈ t.headers, '\n' ∉ header) :
    ∀ line ∈ t.layoutLines, '\n' ∉ line ∧ line.getLast? ≠ some '\r' := by
  intro line hline
  rcases List.mem_cons.1 hline with rfl | hline
  · exact Layout.isLine_trimEnd h
  rcases List.mem_cons.1 hline with rfl | hline
  · exact Layout.isLine_rule t.headers
  obtain ⟨row, -, rfl⟩ := List.mem_map.1 hline
  refine Layout.isLine_trimEnd fun cell hcell => ?_
  obtain ⟨value, -, rfl⟩ := List.mem_map.1 hcell
  cases value <;> decide

/-- The lines are told apart again. -/
theorem lines_layout {t : Table} (h : ∀ header ∈ t.headers, '\n' ∉ header) :
    Text.lines t.layout.toList = t.layoutLines := by
  rw [layout, String.toList_ofList]
  exact Text.lines_unlines (isLine_of_mem_layoutLines h)

end TruthTables.Table
