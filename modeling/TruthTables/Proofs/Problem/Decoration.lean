import TruthTables.Proofs.Problem.Reading
import TruthTables.Proofs.Text.Trimming

set_option autoImplicit false

/-! # Problem files with decoration

A problem can stand in a file in many ways: with blanks around whatever a line says and a comment behind it,
with lines that say nothing, with any separators between the symbols, with either line end (`Presents`).
The reader finds the same problem in all of them, and whatever it finds stands in the file in this way. So
reading undoes writing for all problems that have symbols; a file without any is refused if no line says
anything, and a file whose first saying line holds separators alone has an empty list of symbols.

A carriage return in front of a line feed can be taken as part of the line or as part of its end. Both are
right here, because at the end of a line it is a blank or in a comment: what is told does not depend on how
the text is cut into lines (`contents_of_composes`). -/

namespace TruthTables

namespace Text

/-! ## Line ends -/

/-- A character in front of a line belongs to it. -/
theorem lines_cons {c : Char} {cs line : List Char} {ls : List (List Char)} (hc : c ≠ '\n')
    (hnext : cs.head? ≠ some '\n') (h : lines cs = line :: ls) : lines (c :: cs) = (c :: line) :: ls := by
  rw [lines, h]
  · rintro ds - rfl
    exact hnext rfl
  · exact hc

/-- The carriage return directly in front of a line feed is no part of the line. -/
theorem lines_append_return {line : List Char} (hn : '\n' ∉ line) (rest : List Char) :
    lines (line ++ '\r' :: '\n' :: rest) = line :: lines rest := by
  induction line with
  | nil => simp [lines]
  | cons c cs ih =>
      have hcs := List.not_mem_of_not_mem_cons hn
      refine lines_cons (List.ne_of_not_mem_cons hn).symm ?_ (ih hcs)
      cases cs with
      | nil => simp
      | cons d ds => simpa using (List.ne_of_not_mem_cons hcs).symm

theorem lines_of_not_mem {line : List Char} (hn : '\n' ∉ line) (hline : line ≠ []) :
    lines line = [line] := by
  induction line with
  | nil => exact absurd rfl hline
  | cons c cs ih =>
      have hc := (List.ne_of_not_mem_cons hn).symm
      have hcs := List.not_mem_of_not_mem_cons hn
      cases cs with
      | nil =>
          rw [lines, lines]
          · simp
          · exact hc
      | cons d ds =>
          refine lines_cons hc ?_ (ih hcs (by simp))
          simpa using (List.ne_of_not_mem_cons hcs).symm

end Text

namespace Problem

/-! ## How a problem stands in a file -/

/-- A line that says something, with blanks around it and a comment behind it. -/
def Says (line said : List Char) : Prop :=
  ∃ before behind remark, line = before ++ said ++ behind ++ remark ∧
    (∀ c ∈ before ++ behind, Text.isBlank c = true) ∧ ∀ c ∈ remark.head?, c = '#'

/-- A text in lines. A line ends in a line feed, with or without a carriage return in front of it, and the
    end of the last line may be missing. -/
inductive Composes : List (List Char) → List Char → Prop
  | empty : Composes [] []
  | unended {line : List Char} (h : '\n' ∉ line) : Composes [line] line
  | ended {line ending text : List Char} {ls : List (List Char)} (h : '\n' ∉ line)
      (hending : ending = ['\n'] ∨ ending = ['\r', '\n']) (rest : Composes ls text) :
      Composes (line :: ls) (line ++ ending ++ text)

/-- Lines that say one thing after the other, and lines between them that say nothing. -/
inductive Tells : List (List Char) → List (List Char) → Prop
  | nil : Tells [] []
  | skip {line : List Char} {ls told : List (List Char)} (h : Says line []) (rest : Tells ls told) :
      Tells (line :: ls) told
  | say {line said : List Char} {ls told : List (List Char)} (h : Says line said)
      (rest : Tells ls told) : Tells (line :: ls) (said :: told)

/-- Entries in order, with separators around them and at least one between any two. -/
inductive Listed : List (List Char) → List Char → Prop
  | nil {separators : List Char} (h : ∀ c ∈ separators, isSeparator c = true) : Listed [] separators
  | cons {separators entry cs : List Char} {es : List (List Char)}
      (h : ∀ c ∈ separators, isSeparator c = true) (hentry : entry ≠ [])
      (hinside : ∀ c ∈ entry, isSeparator c = false) (hnext : ∀ c ∈ cs.head?, isSeparator c = true)
      (rest : Listed es cs) : Listed (entry :: es) (separators ++ entry ++ cs)

/-- A text that is a file of the problem: its lines tell the list of the symbols and then the formulas. -/
def Presents (p : Problem) (text : List Char) : Prop :=
  ∃ ls header, Composes ls text ∧ Listed (p.symbols.map String.toList) header ∧
    Tells ls (header :: p.formulas.map String.toList)

/-- A problem made of symbols and formulas that a file can hold. Of symbols there may be none. -/
structure Readable (p : Problem) : Prop where
  symbol : ∀ entry ∈ p.symbols,
    entry ≠ "" ∧ ∀ c ∈ entry.toList, Text.isBlank c = false ∧ c ≠ ',' ∧ c ≠ '#'
  formula : ∀ line ∈ p.formulas, Plain line.toList

/-! ## What a line says -/

theorem ne_comment_of_isBlank {c : Char} (h : Text.isBlank c = true) : c ≠ '#' := by
  rintro rfl
  exact absurd h (by decide)

/-- The content of a line is what it says, up to blanks at the ends. -/
theorem content_eq_trim {line said : List Char} (h : Says line said) (hsaid : '#' ∉ said) :
    content line = Text.trim said := by
  obtain ⟨before, behind, remark, rfl, hblank, hremark⟩ := h
  have hkeep : ∀ c ∈ before ++ said ++ behind, (c != '#') = true := by
    intro c hc
    rw [bne_iff_ne]
    rintro rfl
    have hout : '#' ∉ before ++ behind := fun hmem => ne_comment_of_isBlank (hblank _ hmem) rfl
    simp only [List.mem_append, not_or] at hc hout
    tauto
  have hstop : (remark.takeWhile fun c => c != '#') = [] := by
    cases remark with
    | nil => rfl
    | cons c remark => simp [hremark c rfl]
  rw [content, List.takeWhile_append_of_pos hkeep, hstop, List.append_nil,
    Text.trim_append_blanks hblank]

theorem says_content (line : List Char) : Says line (content line) := by
  obtain ⟨before, behind, htrim, hblank⟩ :=
    Text.exists_blanks_of_trim (line.takeWhile fun c => c != '#')
  refine ⟨before, behind, line.dropWhile fun c => c != '#', ?_, hblank, ?_⟩
  · rw [content, ← htrim, List.takeWhile_append_dropWhile]
  · intro c hc
    simpa using Text.not_of_head?_dropWhile hc

/-- What is said contains no comment sign. -/
theorem not_mem_content (line : List Char) : '#' ∉ content line := by
  obtain ⟨before, behind, htrim, -⟩ :=
    Text.exists_blanks_of_trim (line.takeWhile fun c => c != '#')
  intro hmem
  have hkept : '#' ∈ line.takeWhile fun c => c != '#' := by
    rw [htrim]
    exact List.mem_append_left _ (List.mem_append_right _ hmem)
  exact absurd (List.all_eq_true.1 List.all_takeWhile _ hkept) (by decide)

theorem mem_of_mem_content {line : List Char} {c : Char} (h : c ∈ content line) : c ∈ line := by
  obtain ⟨before, behind, remark, hline, -, -⟩ := says_content line
  rw [hline]
  exact List.mem_append_left _ (List.mem_append_left _ (List.mem_append_right _ h))

theorem trim_content (line : List Char) : Text.trim (content line) = content line :=
  Text.trim_eq_self (Text.head?_trim _) (Text.getLast?_trim _)

/-- A blank at the end of a line stands behind what is said or belongs to the comment. -/
theorem Says.append_blank {line said : List Char} (h : Says line said) {c : Char}
    (hc : Text.isBlank c = true) : Says (line ++ [c]) said := by
  obtain ⟨before, behind, remark, rfl, hblank, hremark⟩ := h
  cases remark with
  | nil =>
      refine ⟨before, behind ++ [c], [], by simp, ?_, by simp⟩
      rw [← List.append_assoc, List.forall_mem_append]
      exact ⟨hblank, by simpa using hc⟩
  | cons d remark => exact ⟨before, behind, d :: remark ++ [c], by simp, hblank, hremark⟩

theorem content_append_blank (line : List Char) {c : Char} (h : Text.isBlank c = true) :
    content (line ++ [c]) = content line := by
  rw [content_eq_trim ((says_content line).append_blank h) (not_mem_content line), trim_content]

/-- A line that says nothing is blank or a comment. -/
theorem content_eq_nil_iff (line : List Char) : content line = [] ↔ Says line [] := by
  constructor
  · intro h
    have hsays := says_content line
    rwa [h] at hsays
  · intro h
    rw [content_eq_trim h (by simp)]
    rfl

/-! ## Cutting a text into lines -/

/-- What the lines say, without those that say nothing. -/
def sayings (ls : List (List Char)) : List (List Char) :=
  (ls.map content).filter fun line => !line.isEmpty

theorem sayings_cons (line : List Char) (ls : List (List Char)) :
    sayings (line :: ls) = if content line = [] then sayings ls else content line :: sayings ls := by
  rw [sayings, List.map_cons, List.filter_cons]
  by_cases h : content line = []
  · simp [h, sayings]
  · simp [h, sayings]

/-- A line with its end in front of a text. Of the line found there only what it says is known, since a
    carriage return at its end goes along with the line feed. -/
theorem contents_append {line ending : List Char} (hn : '\n' ∉ line)
    (hending : ending = ['\n'] ∨ ending = ['\r', '\n']) (text : List Char) :
    contents (line ++ ending ++ text) = sayings (line :: Text.lines text) := by
  have hfound : ∃ found, Text.lines (line ++ ending ++ text) = found :: Text.lines text ∧
      content found = content line := by
    rcases hending with rfl | rfl
    · by_cases hr : line.getLast? = some '\r'
      · obtain ⟨found, rfl⟩ := List.getLast?_eq_some_iff.1 hr
        have hfound : '\n' ∉ found := fun hmem => hn (List.mem_append_left _ hmem)
        refine ⟨found, ?_, (content_append_blank found (by decide)).symm⟩
        simpa using Text.lines_append_return hfound text
      · exact ⟨line, by simpa using Text.lines_append hn hr text, rfl⟩
    · exact ⟨line, by simpa using Text.lines_append_return hn text, rfl⟩
  obtain ⟨found, hlines, hcontent⟩ := hfound
  rw [contents, hlines, ← sayings, sayings_cons, sayings_cons, hcontent]

/-- Whatever lines make up the text, they say what the reader finds. -/
theorem contents_of_composes {ls : List (List Char)} {text : List Char} (h : Composes ls text) :
    contents text = sayings ls := by
  induction h with
  | empty => rfl
  | @unended line h =>
      by_cases hline : line = []
      · subst hline
        rfl
      · rw [contents, Text.lines_of_not_mem h hline, sayings]
  | ended h hending rest ih =>
      rw [contents_append h hending, sayings_cons, sayings_cons, ← ih]
      rfl

theorem Composes.cons {line text : List Char} {ls : List (List Char)} (h : Composes (line :: ls) text)
    {c : Char} (hc : c ≠ '\n') : Composes ((c :: line) :: ls) (c :: text) := by
  cases h with
  | unended h => exact .unended (by simp [hc.symm, h])
  | ended h hending rest => exact @Composes.ended (c :: line) _ _ _ (by simp [hc.symm, h]) hending rest

/-- The lines that the reader finds make up the text. -/
theorem composes_lines (text : List Char) : Composes (Text.lines text) text := by
  fun_induction Text.lines text with
  | case1 => exact .empty
  | case2 cs ih => exact @Composes.ended [] _ _ _ (by simp) (.inr rfl) ih
  | case3 cs ih => exact @Composes.ended [] _ _ _ (by simp) (.inl rfl) ih
  | case4 c cs hreturn hfeed hlines ih =>
      rw [hlines] at ih
      cases ih
      exact .unended (by simpa [eq_comm] using hfeed)
  | case5 c cs hreturn hfeed line ls hlines ih =>
      rw [hlines] at ih
      exact ih.cons hfeed

/-! ## What the lines say -/

/-- Lines say what they tell, if nothing told is blank or looks like a comment. -/
theorem sayings_of_tells {ls told : List (List Char)} (h : Tells ls told)
    (htold : ∀ said ∈ told, '#' ∉ said ∧ Text.trim said ≠ []) : sayings ls = told.map Text.trim := by
  induction h with
  | nil => rfl
  | skip h rest ih => rw [sayings_cons, if_pos ((content_eq_nil_iff _).2 h), ih htold]
  | say h rest ih =>
      obtain ⟨⟨hcomment, hblank⟩, hrest⟩ := List.forall_mem_cons.1 htold
      rw [sayings_cons, content_eq_trim h hcomment, if_neg hblank, ih hrest, List.map_cons]

theorem tells_sayings (ls : List (List Char)) : Tells ls (sayings ls) := by
  induction ls with
  | nil => exact .nil
  | cons line ls ih =>
      rw [sayings_cons]
      split_ifs with h
      · exact .skip ((content_eq_nil_iff line).1 h) ih
      · exact .say (says_content line) ih

theorem sayings_eq_nil_iff (ls : List (List Char)) : sayings ls = [] ↔ ∀ line ∈ ls, Says line [] := by
  simp [sayings, List.filter_eq_nil_iff, content_eq_nil_iff]

/-- What a text says can stand in a line of its own. -/
theorem plain_of_mem_contents {text said : List Char} (h : said ∈ contents text) : Plain said := by
  obtain ⟨hmem, hnonempty⟩ := List.mem_filter.1 h
  obtain ⟨line, hline, rfl⟩ := List.mem_map.1 hmem
  have hfeed : ∀ {ls text}, Composes ls text → ∀ line ∈ ls, '\n' ∉ line := by
    intro ls text hcomposes
    induction hcomposes with
    | empty => simp
    | unended h => simpa using h
    | ended h hending rest ih => exact List.forall_mem_cons.2 ⟨h, ih⟩
  refine ⟨by simpa using hnonempty, Text.head?_trim _, Text.getLast?_trim _, fun c hc => ⟨?_, ?_⟩⟩
  · rintro rfl
    exact hfeed (composes_lines text) line hline (mem_of_mem_content hc)
  · rintro rfl
    exact not_mem_content line hc

/-! ## Listed symbols -/

theorem entries_append_separators {separators : List Char} (h : ∀ c ∈ separators, isSeparator c = true)
    (cs : List Char) : entries (separators ++ cs) = entries cs := by
  induction separators with
  | nil => rfl
  | cons c separators ih =>
      obtain ⟨hc, hseparators⟩ := List.forall_mem_cons.1 h
      rw [List.cons_append, entries_cons_of_separator hc, ih hseparators]

theorem entries_of_listed {es : List (List Char)} {cs : List Char} (h : Listed es cs) :
    entries cs = es := by
  induction h with
  | @nil separators h => rw [← List.append_nil separators, entries_append_separators h, entries_nil]
  | cons h hentry hinside hnext rest ih =>
      rw [List.append_assoc, entries_append_separators h, entries_append hentry hinside hnext, ih]

theorem listed_entries (cs : List Char) : Listed (entries cs) cs := by
  fun_induction entries cs with
  | case1 cs h => exact .nil (List.dropWhile_eq_nil_iff.1 h)
  | case2 cs c rest h ih =>
      have hcs : cs = cs.takeWhile isSeparator ++ (c :: rest.takeWhile fun d => !isSeparator d) ++
          rest.dropWhile fun d => !isSeparator d := by
        rw [List.append_assoc, List.cons_append, List.takeWhile_append_dropWhile, ← h,
          List.takeWhile_append_dropWhile]
      have hc : isSeparator c = false := Text.not_of_head?_dropWhile (congrArg List.head? h)
      conv => arg 2; rw [hcs]
      refine .cons (List.all_eq_true.1 List.all_takeWhile) (by simp) ?_ ?_ ih
      · refine List.forall_mem_cons.2 ⟨hc, fun d hd => ?_⟩
        simpa using List.all_eq_true.1 List.all_takeWhile d hd
      · intro d hd
        simpa using Text.not_of_head?_dropWhile hd

/-- The entries of a list are those that are listed. -/
theorem entries_eq_iff_listed (cs : List Char) (es : List (List Char)) :
    entries cs = es ↔ Listed es cs :=
  ⟨fun h => h ▸ listed_entries cs, entries_of_listed⟩

namespace Listed

variable {es : List (List Char)} {cs : List Char}

theorem append_separators (h : Listed es cs) {separators : List Char}
    (hseparators : ∀ c ∈ separators, isSeparator c = true) : Listed es (cs ++ separators) := by
  induction h with
  | nil h => exact .nil (List.forall_mem_append.2 ⟨h, hseparators⟩)
  | @cons _ _ cs _ h hentry hinside hnext rest ih =>
      rw [List.append_assoc]
      refine .cons h hentry hinside ?_ ih
      cases cs with
      | nil => exact fun c hc => hseparators c (List.mem_of_head? hc)
      | cons d cs => exact hnext

/-- An entry is a run of characters of the list that are no separators. -/
theorem entry (h : Listed es cs) :
    ∀ entry ∈ es, entry ≠ [] ∧ ∀ c ∈ entry, isSeparator c = false ∧ c ∈ cs := by
  induction h with
  | nil h => simp
  | cons h hentry hinside hnext rest ih =>
      refine List.forall_mem_cons.2 ⟨⟨hentry, fun c hc => ⟨hinside c hc, ?_⟩⟩, fun e he => ?_⟩
      · exact List.mem_append_left _ (List.mem_append_right _ hc)
      · obtain ⟨hne, hchars⟩ := ih e he
        exact ⟨hne, fun c hc => ⟨(hchars c hc).1, List.mem_append_right _ (hchars c hc).2⟩⟩

/-- Beside the entries there are separators alone. -/
theorem isSeparator_or_mem (h : Listed es cs) :
    ∀ c ∈ cs, isSeparator c = true ∨ ∃ entry ∈ es, c ∈ entry := by
  induction h with
  | nil h => exact fun c hc => .inl (h c hc)
  | cons h hentry hinside hnext rest ih =>
      intro c hc
      rcases List.mem_append.1 hc with hc | hc
      · rcases List.mem_append.1 hc with hc | hc
        · exact .inl (h c hc)
        · exact .inr ⟨_, List.mem_cons_self .., hc⟩
      · rcases ih c hc with hseparator | ⟨entry, hentry, hmem⟩
        · exact .inl hseparator
        · exact .inr ⟨entry, List.mem_cons_of_mem _ hentry, hmem⟩

end Listed

theorem isSeparator_of_isBlank {c : Char} (h : Text.isBlank c = true) : isSeparator c = true := by
  simp [isSeparator, h]

/-- Trimming a list of symbols loses separators alone. -/
theorem entries_trim (cs : List Char) : entries (Text.trim cs) = entries cs := by
  obtain ⟨before, behind, htrim, hblank⟩ := Text.exists_blanks_of_trim cs
  obtain ⟨hbefore, hbehind⟩ := List.forall_mem_append.1 hblank
  have hlisted : Listed (entries (Text.trim cs)) (Text.trim cs ++ behind) :=
    (listed_entries _).append_separators fun c hc => isSeparator_of_isBlank (hbehind c hc)
  rw [← entries_of_listed hlisted]
  conv => rhs; rw [htrim, List.append_assoc]
  rw [entries_append_separators fun c hc => isSeparator_of_isBlank (hbefore c hc)]

/-! ## Whole files -/

/-- A problem is read from what the lines of a text say. -/
theorem ofText_eq_ok_iff {text : String} {p : Problem} :
    ofText text = .ok p ↔
      ∃ header, contents text.toList = header :: p.formulas.map String.toList ∧
        entries header = p.symbols.map String.toList := by
  unfold ofText
  constructor
  · intro h
    split at h
    · exact absurd h (by simp)
    · next header rest hcontents =>
        obtain rfl := Except.ok.inj h
        exact ⟨header, by simp [hcontents], by simp⟩
  · rintro ⟨header, hcontents, hentries⟩
    simp [hcontents, hentries]

theorem ofText_eq_error_iff {text : String} {fault : ProblemFault} :
    ofText text = .error fault ↔ contents text.toList = [] ∧ fault = .missingSymbols := by
  unfold ofText
  split <;> simp [*, eq_comm]

/-- Only what is no text is refused without looking at it. -/
theorem ofBytes_eq_iff {bytes : ByteArray} {r : Except ProblemFault Problem}
    (h : r ≠ .error .notText) :
    ofBytes bytes = r ↔ ∃ text : String, bytes = text.toUTF8 ∧ ofText text = r := by
  simp only [← fromUTF8?_eq_some_iff]
  unfold ofBytes
  cases String.fromUTF8? bytes with
  | none => simp [h.symm]
  | some text => simp

/-- Every problem that is read can be held by a file. -/
theorem readable_of_ofText {text : String} {p : Problem} (h : ofText text = .ok p) : p.Readable := by
  obtain ⟨header, hcontents, hentries⟩ := ofText_eq_ok_iff.1 h
  have hplain : ∀ said ∈ header :: p.formulas.map String.toList, Plain said := by
    rw [← hcontents]
    exact fun said hsaid => plain_of_mem_contents hsaid
  obtain ⟨hheader, hformulas⟩ := List.forall_mem_cons.1 hplain
  refine ⟨fun entry hentry => ?_, fun line hline => hformulas _ (List.mem_map_of_mem hline)⟩
  have hmem : entry.toList ∈ entries header := hentries ▸ List.mem_map_of_mem hentry
  obtain ⟨hne, hchars⟩ := (listed_entries header).entry _ hmem
  refine ⟨by simpa using hne, fun c hc => ?_⟩
  obtain ⟨hinside, hheld⟩ := hchars c hc
  rw [isSeparator, Bool.or_eq_false_iff] at hinside
  exact ⟨hinside.1, by simpa using hinside.2, (hheader.visible c hheld).2⟩

/-- A problem stands in every file that it is read from. -/
theorem presents_of_ofText {text : String} {p : Problem} (h : ofText text = .ok p) :
    p.Presents text.toList := by
  obtain ⟨header, hcontents, hentries⟩ := ofText_eq_ok_iff.1 h
  refine ⟨Text.lines text.toList, header, composes_lines _, (entries_eq_iff_listed _ _).1 hentries, ?_⟩
  rw [← hcontents]
  exact tells_sayings _

/-- A problem with symbols is read from every file in which it stands. -/
theorem ofText_of_presents {p : Problem} {text : String} (hsymbols : p.symbols ≠ []) (hp : p.Readable)
    (h : p.Presents text.toList) : ofText text = .ok p := by
  obtain ⟨ls, header, hcomposes, hlisted, htells⟩ := h
  have hentries : entries (Text.trim header) = p.symbols.map String.toList := by
    rw [entries_trim, entries_of_listed hlisted]
  have hcomment : '#' ∉ header := by
    intro hmem
    rcases hlisted.isSeparator_or_mem _ hmem with hseparator | ⟨entry, hentry, hin⟩
    · exact absurd hseparator (by decide)
    · obtain ⟨symbol, hsymbol, rfl⟩ := List.mem_map.1 hentry
      exact ((hp.symbol symbol hsymbol).2 _ hin).2.2 rfl
  have hheader : Text.trim header ≠ [] := by
    intro hblank
    rw [hblank, entries_nil] at hentries
    exact hsymbols (List.map_eq_nil_iff.1 hentries.symm)
  have hplain : ∀ line ∈ p.formulas.map String.toList, Plain line := by
    intro line hline
    obtain ⟨formula, hformula, rfl⟩ := List.mem_map.1 hline
    exact hp.formula formula hformula
  have hkept : (p.formulas.map String.toList).map Text.trim = p.formulas.map String.toList := by
    rw [List.map_congr_left fun line hline => (hplain line hline).trim_eq, List.map_id']
  refine ofText_eq_ok_iff.2 ⟨Text.trim header, ?_, hentries⟩
  rw [contents_of_composes hcomposes, sayings_of_tells htells, List.map_cons, hkept]
  refine List.forall_mem_cons.2 ⟨⟨hcomment, hheader⟩, fun line hline => ?_⟩
  rw [(hplain line hline).trim_eq]
  exact ⟨fun hmem => ((hplain line hline).visible _ hmem).2 rfl, (hplain line hline).nonempty⟩

theorem Readable.writable {p : Problem} (hp : p.Readable) (hsymbols : p.symbols ≠ []) : p.Writable := by
  have hplain : ∀ entry ∈ p.symbols, Plain entry.toList := by
    intro entry hentry
    obtain ⟨hne, hchars⟩ := hp.symbol entry hentry
    refine ⟨by simpa using hne, ?_, ?_, ?_⟩
    · exact fun c hc => (hchars c (List.mem_of_head? hc)).1
    · exact fun c hc => (hchars c (List.mem_of_getLast? hc)).1
    · refine fun c hc => ⟨?_, (hchars c hc).2.2⟩
      rintro rfl
      exact absurd (hchars _ hc).1 (by decide)
  refine ⟨hsymbols, hplain, fun entry hentry c hc => ?_, hp.formula⟩
  obtain ⟨hblank, hcomma, -⟩ := (hp.symbol entry hentry).2 c hc
  simp [isSeparator, hblank, hcomma]

/-- What is written for a problem with symbols is a file of it. -/
theorem presents_text {p : Problem} (hp : p.Readable) (hsymbols : p.symbols ≠ []) :
    p.Presents p.text.toList :=
  presents_of_ofText (ofText_text (hp.writable hsymbols))

/-- Reading sees through decoration. A problem with symbols is read from every file of it, whatever the
    separators, blanks, comments, idle lines and line ends. Whatever is read is made of symbols and formulas
    that a file can hold, and stands in the file that way. So a problem that has been read is read again
    from the file written for it, and from any other file of it, if it has symbols at all. And no symbol list
    is found exactly in the texts all of whose lines are blank or comments. -/
theorem ofBytes_sees_through_decoration :
    (∀ (p : Problem) (text : String), p.symbols ≠ [] → p.Readable → p.Presents text.toList →
      ofBytes text.toUTF8 = .ok p) ∧
    (∀ bytes p, ofBytes bytes = .ok p →
      p.Readable ∧ ∃ text : String, bytes = text.toUTF8 ∧ p.Presents text.toList) ∧
    (∀ bytes p, ofBytes bytes = .ok p → p.symbols ≠ [] →
      p.Presents p.text.toList ∧
        ∀ text : String, p.Presents text.toList → ofBytes text.toUTF8 = .ok p) ∧
    ∀ bytes, (∃ fault, ofBytes bytes = .error fault ∧ fault.message = "missing symbol list") ↔
      ∃ text : String, bytes = text.toUTF8 ∧
        ∃ ls, Composes ls text.toList ∧ ∀ line ∈ ls, Says line [] := by
  have hread : ∀ (p : Problem) (text : String), p.symbols ≠ [] → p.Readable → p.Presents text.toList →
      ofBytes text.toUTF8 = .ok p := by
    intro p text hsymbols hp h
    exact (ofBytes_eq_iff (by simp)).2 ⟨text, rfl, ofText_of_presents hsymbols hp h⟩
  have hfound : ∀ bytes p, ofBytes bytes = .ok p →
      p.Readable ∧ ∃ text : String, bytes = text.toUTF8 ∧ p.Presents text.toList := by
    intro bytes p h
    obtain ⟨text, rfl, htext⟩ := (ofBytes_eq_iff (by simp)).1 h
    exact ⟨readable_of_ofText htext, text, rfl, presents_of_ofText htext⟩
  refine ⟨hread, hfound, ?_, ?_⟩
  · intro bytes p h hsymbols
    obtain ⟨hp, -⟩ := hfound bytes p h
    exact ⟨presents_text hp hsymbols, fun text htext => hread p text hsymbols hp htext⟩
  · intro bytes
    constructor
    · rintro ⟨fault, hfault, hmessage⟩
      obtain rfl : fault = .missingSymbols := by
        cases fault with
        | missingSymbols => rfl
        | notText => exact absurd hmessage (by decide)
      obtain ⟨text, rfl, htext⟩ := (ofBytes_eq_iff (by simp)).1 hfault
      obtain ⟨hcontents, -⟩ := ofText_eq_error_iff.1 htext
      exact ⟨text, rfl, _, composes_lines _, (sayings_eq_nil_iff _).1 hcontents⟩
    · rintro ⟨text, rfl, ls, hcomposes, hidle⟩
      have hcontents : contents text.toList = [] := by
        rw [contents_of_composes hcomposes, sayings_eq_nil_iff]
        exact hidle
      exact ⟨.missingSymbols, (ofBytes_eq_iff (by simp)).2
        ⟨text, rfl, ofText_eq_error_iff.2 ⟨hcontents, rfl⟩⟩, rfl⟩

/-- A file with comments, an idle line, superfluous separators and both line ends holds its problem. -/
theorem ofBytes_decorated_negation :
    ofBytes "# signs\r\n, p,\tq # two\n\n ~p".toUTF8 = .ok ⟨["p", "q"], ["~p"]⟩ := by
  refine ofBytes_sees_through_decoration.1 _ _ (by simp) ⟨?_, ?_⟩
    ⟨["# signs".toList, ", p,\tq # two".toList, [], " ~p".toList], ", p,\tq ".toList, ?_, ?_, ?_⟩
  · have hp : Text.isBlank 'p' = false := rfl
    have hq : Text.isBlank 'q' = false := rfl
    simp [hp, hq]
  · refine List.forall_mem_singleton.2 ⟨by simp, ?_, ?_, by simp⟩
    · rintro _ ⟨⟩
      rfl
    · rintro _ ⟨⟩
      rfl
  · exact .ended (by decide) (.inr rfl) (.ended (by decide) (.inl rfl) (.ended (by decide) (.inl rfl)
      (.unended (by decide))))
  · refine @Listed.cons [',', ' '] ['p'] [',', '\t', 'q', ' '] _ (List.all_eq_true.1 rfl) (by simp)
      (List.forall_mem_singleton.2 rfl) ?_ (@Listed.cons [',', '\t'] ['q'] [' '] _
        (List.all_eq_true.1 rfl) (by simp) (List.forall_mem_singleton.2 rfl) ?_
        (.nil (List.all_eq_true.1 rfl)))
    · rintro _ ⟨⟩
      rfl
    · rintro _ ⟨⟩
      rfl
  · refine .skip ⟨[], [], "# signs".toList, rfl, by simp, ?_⟩
      (.say ⟨[], [], "# two".toList, rfl, by simp, ?_⟩ (.skip ⟨[], [], [], rfl, by simp, by simp⟩
      (.say ⟨[' '], [], [], rfl, List.forall_mem_singleton.2 rfl, by simp⟩ .nil)))
    · rintro _ ⟨⟩
      rfl
    · rintro _ ⟨⟩
      rfl

end Problem

end TruthTables
