import Mathlib.Data.List.Basic
import Mathlib.Data.List.TakeWhile
import TruthTables.Problem

set_option autoImplicit false

/-! # Problem files that are read as they were written

The file format quotes nothing, so not every problem survives being written and read. What must not be
there is a separator in a symbol, a comment sign or a line feed in a line, and a blank at either end of
a line. Without them (`Problem.Writable`) the reader finds just what the writer put down. -/

namespace TruthTables

theorem Text.trim_eq_self {cs : List Char} (hfirst : ∀ c ∈ cs.head?, isBlank c = false)
    (hlast : ∀ c ∈ cs.getLast?, isBlank c = false) : trim cs = cs := by
  have hkeep : ∀ ds : List Char, (∀ c ∈ ds.head?, isBlank c = false) →
      ds.dropWhile isBlank = ds := by
    intro ds h
    cases ds with
    | nil => rfl
    | cons d ds =>
        have hd : isBlank d = false := h d rfl
        rw [List.dropWhile_cons_of_neg (by simp [hd])]
  rw [trim, trimStart, hkeep cs hfirst, trimEnd, hkeep cs.reverse, List.reverse_reverse]
  rw [List.head?_reverse]
  exact hlast

namespace Problem

/-! ## Lines -/

/-- A line that a reader takes as it stands. -/
structure Plain (line : List Char) : Prop where
  nonempty : line ≠ []
  first : ∀ c ∈ line.head?, Text.isBlank c = false
  last : ∀ c ∈ line.getLast?, Text.isBlank c = false
  visible : ∀ c ∈ line, c ≠ '\n' ∧ c ≠ '#'

namespace Plain

theorem trim_eq {line : List Char} (h : Plain line) : Text.trim line = line :=
  Text.trim_eq_self h.first h.last

theorem singleton {c : Char} (hblank : Text.isBlank c = false) (hcomment : c ≠ '#') :
    Plain [c] where
  nonempty := by simp
  first := by simpa using hblank
  last := by simpa using hblank
  visible := by
    have hbreak : c ≠ '\n' := by
      rintro rfl
      exact absurd hblank (by decide)
    simpa using ⟨hbreak, hcomment⟩

/-- Of what stands between two plain parts only the characters matter. -/
theorem append {l middle r : List Char} (hl : Plain l)
    (hmiddle : ∀ c ∈ middle, c ≠ '\n' ∧ c ≠ '#') (hr : Plain r) : Plain (l ++ middle ++ r) where
  nonempty := by simp [hl.nonempty]
  first := by
    rw [List.append_assoc, List.head?_append_of_ne_nil _ hl.nonempty]
    exact hl.first
  last := by
    rw [List.getLast?_append_of_ne_nil _ hr.nonempty]
    exact hr.last
  visible := by
    intro c hc
    rcases List.mem_append.1 hc with hc | hc
    · exact (List.mem_append.1 hc).elim (hl.visible c) (hmiddle c)
    · exact hr.visible c hc

end Plain

theorem content_eq_self {line : List Char} (h : Plain line) : content line = line := by
  have hcomment : line.takeWhile (· != '#') = line := by
    rw [List.takeWhile_eq_self_iff]
    intro c hc
    simpa using (h.visible c hc).2
  rw [content, hcomment, h.trim_eq]

theorem contents_unlines {ls : List (List Char)} (h : ∀ line ∈ ls, Plain line) :
    contents (Text.unlines ls) = ls := by
  have hlines : Text.lines (Text.unlines ls) = ls := by
    apply Text.lines_unlines
    intro line hline
    refine ⟨fun hn => ((h line hline).visible _ hn).1 rfl, fun hr => ?_⟩
    exact absurd ((h line hline).last '\r' hr) (by decide)
  have hcontent : ls.map content = ls := by
    rw [List.map_congr_left fun line hline => content_eq_self (h line hline), List.map_id']
  rw [contents, hlines, hcontent, List.filter_eq_self]
  intro line hline
  simpa using (h line hline).nonempty

/-! ## Symbols -/

theorem entries_cons_of_separator {c : Char} (h : isSeparator c = true) (cs : List Char) :
    entries (c :: cs) = entries cs := by
  rw [entries, entries, List.dropWhile_cons_of_pos h]

/-- An entry ends at the next separator. -/
theorem entries_append {entry rest : List Char} (hentry : entry ≠ [])
    (hinside : ∀ c ∈ entry, isSeparator c = false)
    (hbehind : ∀ c ∈ rest.head?, isSeparator c = true) :
    entries (entry ++ rest) = entry :: entries rest := by
  obtain ⟨c, cs, rfl⟩ := List.exists_cons_of_ne_nil hentry
  obtain ⟨hc, hcs⟩ := List.forall_mem_cons.1 hinside
  -- the entry is one run, and what follows it begins the next step
  have hkeep : ∀ d ∈ cs, (!isSeparator d) = true := fun d hd => by simp [hcs d hd]
  have htake : (rest.takeWhile fun d => !isSeparator d) = [] := by
    cases rest with
    | nil => rfl
    | cons d rest => simp [hbehind d rfl]
  have hdrop : (rest.dropWhile fun d => !isSeparator d) = rest := by
    cases rest with
    | nil => rfl
    | cons d rest => simp [hbehind d rfl]
  have hstart : (c :: cs ++ rest).dropWhile isSeparator = c :: (cs ++ rest) := by simp [hc]
  rw [entries]
  split
  · next h => exact absurd (hstart.symm.trans h) (by simp)
  · next c' cs' h =>
      obtain ⟨rfl, rfl⟩ := List.cons.inj (h.symm.trans hstart)
      rw [List.takeWhile_append_of_pos hkeep, List.dropWhile_append_of_pos hkeep, htake, hdrop,
        List.append_nil]

theorem entries_nil : entries [] = [] := by
  rw [entries, List.dropWhile_nil]

theorem entries_intercalate {es : List (List Char)}
    (h : ∀ entry ∈ es, entry ≠ [] ∧ ∀ c ∈ entry, isSeparator c = false) :
    entries (List.intercalate [',', ' '] es) = es := by
  induction es with
  | nil => exact entries_nil
  | cons entry es ih =>
      obtain ⟨⟨hentry, hinside⟩, hes⟩ := List.forall_mem_cons.1 h
      cases es with
      | nil =>
          have hone : entries (entry ++ []) = entry :: entries [] :=
            entries_append hentry hinside (by simp)
          rw [List.append_nil, entries_nil] at hone
          rw [List.intercalate_singleton, hone]
      | cons next es =>
          have hcomma : isSeparator ',' = true := by decide
          have hspace : isSeparator ' ' = true := by decide
          rw [List.intercalate_cons_cons, List.append_assoc,
            entries_append hentry hinside (by simp [hcomma]), List.cons_append,
            entries_cons_of_separator hcomma, List.cons_append, entries_cons_of_separator hspace,
            List.nil_append, ih hes]

theorem plain_intercalate {es : List (List Char)} (hes : es ≠ [])
    (h : ∀ entry ∈ es, Plain entry) : Plain (List.intercalate [',', ' '] es) := by
  induction es with
  | nil => exact absurd rfl hes
  | cons entry es ih =>
      obtain ⟨hentry, hrest⟩ := List.forall_mem_cons.1 h
      cases es with
      | nil => rwa [List.intercalate_singleton]
      | cons next es =>
          rw [List.intercalate_cons_cons]
          exact hentry.append (by simp) (ih (by simp) hrest)

/-! ## Whole files -/

/-- A problem that a file can hold. -/
structure Writable (p : Problem) : Prop where
  nonempty : p.symbols ≠ []
  plain_symbol : ∀ entry ∈ p.symbols, Plain entry.toList
  no_separator : ∀ entry ∈ p.symbols, ∀ c ∈ entry.toList, isSeparator c = false
  plain_formula : ∀ line ∈ p.formulas, Plain line.toList

/-- A problem is read back from the text of its file. -/
theorem ofText_text {p : Problem} (h : p.Writable) : ofText p.text = .ok p := by
  have hsymbols : ∀ entry ∈ p.symbols.map String.toList, Plain entry := by
    intro entry hentry
    obtain ⟨symbol, hsymbol, rfl⟩ := List.mem_map.1 hentry
    exact h.plain_symbol symbol hsymbol
  have hheader : Plain (List.intercalate [',', ' '] (p.symbols.map String.toList)) :=
    plain_intercalate (by simpa using h.nonempty) hsymbols
  have hformulas : ∀ line ∈ p.formulas.map String.toList, Plain line := by
    intro line hline
    obtain ⟨formula, hformula, rfl⟩ := List.mem_map.1 hline
    exact h.plain_formula formula hformula
  have hentries : entries (List.intercalate [',', ' '] (p.symbols.map String.toList)) =
      p.symbols.map String.toList := by
    apply entries_intercalate
    intro entry hentry
    obtain ⟨symbol, hsymbol, rfl⟩ := List.mem_map.1 hentry
    exact ⟨(h.plain_symbol symbol hsymbol).nonempty, h.no_separator symbol hsymbol⟩
  have hstrings : ∀ texts : List String, (texts.map String.toList).map String.ofList = texts := by
    intro texts
    simp
  rw [ofText, text, String.toList_ofList,
    contents_unlines (List.forall_mem_cons.2 ⟨hheader, hformulas⟩)]
  simp only [hentries, hstrings]

theorem fromUTF8?_eq_some_iff {bytes : ByteArray} {text : String} :
    String.fromUTF8? bytes = some text ↔ bytes = text.toUTF8 := by
  rw [String.fromUTF8?, String.toUTF8_eq_toByteArray]
  constructor
  · intro h
    split_ifs at h
    exact congrArg String.toByteArray (Option.some.inj h)
  · rintro rfl
    rw [dif_pos text.isValidUTF8]
    rfl

/-- A problem is read back from the bytes of its file. -/
theorem ofBytes_text {p : Problem} (h : p.Writable) : ofBytes p.text.toUTF8 = .ok p := by
  rw [ofBytes, fromUTF8?_eq_some_iff.2 rfl]
  exact ofText_text h

end Problem

end TruthTables
