set_option autoImplicit false

/-! # Lines

A text as the list of its lines. A line ends at a line feed, and one carriage return directly
before the line feed belongs to the line's end. The text behind the last line feed is a line of its
own if there is any, and a carriage return at its end stays. -/

namespace TruthTables.Text

/-- The lines of a text, without their ends. -/
def lines : List Char → List (List Char)
  | [] => []
  | '\r' :: '\n' :: cs => [] :: lines cs
  | '\n' :: cs => [] :: lines cs
  | c :: cs =>
    match lines cs with
    | [] => [[c]]
    | line :: rest => (c :: line) :: rest

/-- A list of lines as one text, each ended by a line feed. -/
def unlines (ls : List (List Char)) : List Char :=
  ls.flatMap (· ++ ['\n'])

/-- A line without line feed that does not end in a carriage return is read back from the front of
    a text. -/
theorem lines_append {line : List Char} (hn : '\n' ∉ line) (hr : line.getLast? ≠ some '\r')
    (rest : List Char) : lines (line ++ '\n' :: rest) = line :: lines rest := by
  induction line with
  | nil => simp [lines]
  | cons c cs ih =>
    have hc : c ≠ '\n' := fun h => hn (h ▸ List.mem_cons_self ..)
    have hcs : '\n' ∉ cs := fun h => hn (List.mem_cons_of_mem _ h)
    cases cs with
    | nil =>
      have hc' : c ≠ '\r' := fun h => hr (by simp [h])
      simp [lines, hc']
    | cons d ds =>
      have hd : d ≠ '\n' := fun h => hcs (h ▸ List.mem_cons_self ..)
      have ih' := ih hcs (by simpa [List.getLast?_cons_cons] using hr)
      simp only [List.cons_append] at ih' ⊢
      rw [lines, ih']
      · intro cs' _ h
        exact hd (List.cons.inj h).1
      · exact hc

/-- Writing lines and reading them again changes nothing. -/
theorem lines_unlines {ls : List (List Char)}
    (h : ∀ l ∈ ls, '\n' ∉ l ∧ l.getLast? ≠ some '\r') : lines (unlines ls) = ls := by
  induction ls with
  | nil => rfl
  | cons l ls ih =>
    have hl := h l (List.mem_cons_self ..)
    have hcons : unlines (l :: ls) = l ++ '\n' :: unlines ls := by simp [unlines]
    rw [hcons, lines_append hl.1 hl.2, ih fun l' hl' => h l' (List.mem_cons_of_mem _ hl')]

end TruthTables.Text
