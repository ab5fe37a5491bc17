import TruthTables.Text.Csv

set_option autoImplicit false

/-! # Reading comma-separated values

A reader of comma-separated values goes over the text once and knows at each character where it stands:
in front of a record or a field, in a field without quotes, between quotes, or behind a closing quote,
which may turn out to be the first half of a doubled one. It accepts exactly the texts that the rules
allow (`decode_eq_some_iff`), so no text has two readings, and what `encode` writes is read back. -/

namespace TruthTables.Text.Csv

/-! ## The rules -/

/-- A field is written as it is if nothing in it needs quotes, and between quotes in any case. -/
inductive WritesField : List Char → List Char → Prop
  | plain {field : List Char} (h : ∀ c ∈ field, isSpecial c = false) : WritesField field field
  | quoted (field : List Char) : WritesField field ('"' :: doubled field ++ ['"'])

/-- A record has one field at least, with a comma behind each but the last. -/
inductive WritesRecord : List (List Char) → List Char → Prop
  | last {field text : List Char} (h : WritesField field text) :
      WritesRecord [field] (text ++ ['\n'])
  | cons {field text rest : List Char} {fields : List (List Char)} (h : WritesField field text)
      (hrest : WritesRecord fields rest) : WritesRecord (field :: fields) (text ++ ',' :: rest)

/-- Records stand one behind another. -/
inductive Writes : List (List (List Char)) → List Char → Prop
  | nil : Writes [] []
  | cons {fields : List (List Char)} {records : List (List (List Char))} {text rest : List Char}
      (h : WritesRecord fields text) (hrest : Writes records rest) :
      Writes (fields :: records) (text ++ rest)

/-! ## The reader -/

/-- Where a reader stands. -/
inductive Position
  /-- In front of a record, if there is one more. -/
  | record
  /-- In front of a field. -/
  | field
  /-- In a field without quotes. -/
  | plain
  /-- Between quotes. -/
  | quoted
  /-- Behind a quote that closes the field or is the first half of a doubled one. -/
  | closed
  deriving DecidableEq, Repr

/-- Put characters in front of the first field. -/
def extend (cs : List Char) (records : List (List (List Char))) : List (List (List Char)) :=
  records.modifyHead (List.modifyHead (cs ++ ·))

/-- Put a field in front of the first record. -/
def addField (field : List Char) (records : List (List (List Char))) : List (List (List Char)) :=
  records.modifyHead (field :: ·)

/-- Read the rest of a text. The records begin with the rest of the field in which the reader stands. -/
def read : Position → List Char → Option (List (List (List Char)))
  | position, [] => if position = .record then some [] else none
  | .quoted, c :: cs => if c = '"' then read .closed cs else (read .quoted cs).map (extend [c])
  | position, c :: cs =>
    if c = '"' then
      match position with
      | .plain => none
      | .closed => (read .quoted cs).map (extend ['"'])
      | _ => read .quoted cs
    else if c = ',' then (read .field cs).map (addField [])
    else if c = '\n' then (read .record cs).map ([[]] :: ·)
    else if c = '\r' ∨ position = .closed then none
    else (read .plain cs).map (extend [c])

/-- The records of a text. -/
def decode (cs : List Char) : Option (List (List (List Char))) :=
  read .record cs

/-! ## Fields in front of what is read -/

theorem extend_nil : extend [] = id := by
  funext records
  have hid : (fun field : List Char => [] ++ field) = id := rfl
  rw [extend, hid, List.modifyHead_id, List.modifyHead_id]

theorem extend_extend (cs ds : List Char) (records : List (List (List Char))) :
    extend cs (extend ds records) = extend (cs ++ ds) records := by
  simp only [extend, List.modifyHead_modifyHead]
  congr 1
  funext fields
  simp [List.modifyHead_modifyHead, Function.comp_def]

theorem extend_addField (cs field : List Char) (records : List (List (List Char))) :
    extend cs (addField field records) = addField (cs ++ field) records := by
  rw [extend, addField, List.modifyHead_modifyHead]
  rfl

theorem extend_cons (cs field : List Char) (fields : List (List Char))
    (records : List (List (List Char))) :
    extend cs ((field :: fields) :: records) = ((cs ++ field) :: fields) :: records :=
  rfl

theorem addField_cons (field : List Char) (fields : List (List Char))
    (records : List (List (List Char))) :
    addField field (fields :: records) = (field :: fields) :: records :=
  rfl

theorem doubled_cons (c : Char) (cs : List Char) :
    doubled (c :: cs) = (if c = '"' then ['"', '"'] else [c]) ++ doubled cs :=
  rfl

theorem doubled_append (cs ds : List Char) : doubled (cs ++ ds) = doubled cs ++ doubled ds :=
  List.flatMap_append

theorem isSpecial_eq_false_iff {c : Char} :
    isSpecial c = false ↔ c ≠ ',' ∧ c ≠ '"' ∧ c ≠ '\r' ∧ c ≠ '\n' := by
  simp [isSpecial, and_assoc]

/-! ## What is written is read -/

/-- In front of a record stands its first field. -/
theorem read_record_cons (c : Char) (cs : List Char) : read .record (c :: cs) = read .field (c :: cs) := by
  simp [read]

theorem read_record {cs : List Char} (h : cs ≠ []) : read .record cs = read .field cs := by
  obtain ⟨c, cs, rfl⟩ := List.exists_cons_of_ne_nil h
  exact read_record_cons c cs

theorem read_of_not_special {position : Position} (hq : position ≠ .quoted) (hc : position ≠ .closed)
    {c : Char} (h : isSpecial c = false) (cs : List Char) :
    read position (c :: cs) = (read .plain cs).map (extend [c]) := by
  obtain ⟨hcomma, hquote, hcr, hlf⟩ := isSpecial_eq_false_iff.1 h
  cases position <;> simp_all [read]

/-- Characters that need no quotes are read one by one. -/
theorem read_plain_append {field : List Char} (h : ∀ c ∈ field, isSpecial c = false) (cs : List Char) :
    read .plain (field ++ cs) = (read .plain cs).map (extend field) := by
  induction field with
  | nil =>
      rw [extend_nil, Option.map_id]
      rfl
  | cons c field ih =>
      obtain ⟨hc, hfield⟩ := List.forall_mem_cons.1 h
      rw [List.cons_append, read_of_not_special (by decide) (by decide) hc, ih hfield, Option.map_map]
      congr 1
      exact funext fun records => extend_extend [c] field records

/-- Between quotes a field is read up to the quote that is not doubled. -/
theorem read_quoted_append (field cs : List Char) :
    read .quoted (doubled field ++ '"' :: cs) = (read .closed cs).map (extend field) := by
  induction field with
  | nil =>
      rw [extend_nil, Option.map_id]
      rfl
  | cons c field ih =>
      have hext : extend [c] ∘ extend field = extend (c :: field) :=
        funext fun records => extend_extend [c] field records
      rw [doubled_cons]
      by_cases hc : c = '"'
      · rw [if_pos hc]
        subst hc
        simp [read, ih, hext]
      · rw [if_neg hc]
        simp [read, hc, ih, hext]

/-- Behind a field the reader is told what follows. -/
theorem read_comma {position : Position} (h : position ≠ .quoted) (cs : List Char) :
    read position (',' :: cs) = (read .field cs).map (addField []) := by
  cases position <;> simp_all [read]

theorem read_lineFeed {position : Position} (h : position ≠ .quoted) (cs : List Char) :
    read position ('\n' :: cs) = (read .record cs).map ([[]] :: ·) := by
  cases position <;> simp_all [read]

/-- However a field is written, it is read, and the reader is not between quotes behind it. -/
theorem exists_read_field {field text : List Char} (h : WritesField field text) :
    ∃ position, position ≠ .quoted ∧
      ∀ cs, read .field (text ++ cs) = (read position cs).map (extend field) := by
  cases h with
  | plain h =>
      cases field with
      | nil =>
          refine ⟨.field, by decide, fun cs => ?_⟩
          rw [extend_nil, Option.map_id]
          rfl
      | cons c field =>
          refine ⟨.plain, by decide, fun cs => ?_⟩
          have hc := h c (List.mem_cons_self ..)
          rw [← read_plain_append h, List.cons_append, read_of_not_special (by decide) (by decide) hc,
            read_of_not_special (by decide) (by decide) hc]
  | quoted =>
      refine ⟨.closed, by decide, fun cs => ?_⟩
      have hopen : ∀ ds, read .field ('"' :: ds) = read .quoted ds := fun _ => rfl
      rw [← read_quoted_append, List.cons_append, List.cons_append, hopen, List.append_assoc]
      rfl

theorem read_writesRecord {fields : List (List Char)} {text : List Char} (h : WritesRecord fields text)
    (cs : List Char) : read .field (text ++ cs) = (read .record cs).map (fields :: ·) := by
  induction h with
  | @last field text h =>
      obtain ⟨position, hposition, hread⟩ := exists_read_field h
      rw [List.append_assoc, hread, List.singleton_append, read_lineFeed hposition, Option.map_map]
      congr 1
      funext records
      rw [Function.comp_apply, extend_cons, List.append_nil]
  | @cons field text rest fields h _ ih =>
      obtain ⟨position, hposition, hread⟩ := exists_read_field h
      rw [List.append_assoc, hread, List.cons_append, read_comma hposition, ih, Option.map_map,
        Option.map_map]
      congr 1
      funext records
      rw [Function.comp_apply, Function.comp_apply, extend_addField, addField_cons, List.append_nil]

theorem WritesRecord.ne_nil {fields : List (List Char)} {text : List Char}
    (h : WritesRecord fields text) : text ≠ [] := by
  cases h <;> simp

theorem decode_of_writes {records : List (List (List Char))} {text : List Char}
    (h : Writes records text) : decode text = some records := by
  rw [decode]
  induction h with
  | nil => rfl
  | cons h _ ih =>
      have hne := List.append_ne_nil_of_left_ne_nil h.ne_nil
      rw [read_record (hne _), read_writesRecord h, ih]
      rfl

/-! ## What is read is written -/

/-- What has been read from a field's beginning, and the text from there on. -/
def WritesFrom (records : List (List (List Char))) (text : List Char) : Prop :=
  ∃ fields rest line behind, records = fields :: rest ∧ text = line ++ behind ∧
    WritesRecord fields line ∧ Writes rest behind

theorem WritesFrom.writes {records : List (List (List Char))} {text : List Char}
    (h : WritesFrom records text) : Writes records text := by
  obtain ⟨fields, rest, line, behind, rfl, rfl, hline, hbehind⟩ := h
  exact .cons hline hbehind

theorem WritesField.comma {field text cs : List Char} {records : List (List (List Char))}
    (h : WritesField field text) (hrest : WritesFrom records cs) :
    WritesFrom (addField field records) (text ++ ',' :: cs) := by
  obtain ⟨fields, rest, line, behind, rfl, rfl, hline, hbehind⟩ := hrest
  exact ⟨field :: fields, rest, _, behind, rfl, by simp, .cons h hline, hbehind⟩

theorem WritesField.lineFeed {field text cs : List Char} {records : List (List (List Char))}
    (h : WritesField field text) (hrest : Writes records cs) :
    WritesFrom ([field] :: records) (text ++ '\n' :: cs) :=
  ⟨[field], records, text ++ ['\n'], cs, rfl, by simp, .last h, hrest⟩

/-- What a reader's answer says about the text, by the place where the reader stands. -/
def Sound : Position → List (List (List Char)) → List Char → Prop
  | .record, records, cs => Writes records cs
  | .field, records, cs => WritesFrom records cs
  | .plain, records, cs => ∀ front : List Char, (∀ c ∈ front, isSpecial c = false) →
      WritesFrom (extend front records) (front ++ cs)
  | .quoted, records, cs => ∀ front : List Char,
      WritesFrom (extend front records) ('"' :: doubled front ++ cs)
  | .closed, records, cs => ∀ front : List Char,
      WritesFrom (extend front records) ('"' :: doubled front ++ '"' :: cs)

/-- Outside quotes, text behind a field is told by what it makes of a field in front of it. -/
theorem sound_of_field {position : Position} {records : List (List (List Char))} {cs : List Char}
    (hposition : position ≠ .quoted)
    (h : ∀ field text, WritesField field text → WritesFrom (extend field records) (text ++ cs)) :
    Sound position records cs := by
  have hempty : WritesFrom records cs := by
    simpa [extend_nil] using h [] [] (.plain (by simp))
  cases position with
  | record => exact hempty.writes
  | field => exact hempty
  | plain => exact fun front hfront => h front front (.plain hfront)
  | quoted => exact absurd rfl hposition
  | closed =>
      intro front
      have hquoted := h front _ (.quoted front)
      rwa [List.append_assoc] at hquoted

theorem sound_comma {position : Position} {records : List (List (List Char))} {cs : List Char}
    (hposition : position ≠ .quoted) (h : WritesFrom records cs) :
    Sound position (addField [] records) (',' :: cs) := by
  apply sound_of_field hposition
  intro field text hfield
  rw [extend_addField, List.append_nil]
  exact hfield.comma h

theorem sound_lineFeed {position : Position} {records : List (List (List Char))} {cs : List Char}
    (hposition : position ≠ .quoted) (h : Writes records cs) :
    Sound position ([[]] :: records) ('\n' :: cs) := by
  apply sound_of_field hposition
  intro field text hfield
  rw [extend_cons, List.append_nil]
  exact hfield.lineFeed h

/-- Between quotes the field grows by what is read, a doubled quote included. -/
theorem sound_grown {c : Char} {cs : List Char} {records : List (List (List Char))}
    (h : Sound .quoted records cs) (front : List Char) :
    WritesFrom (extend front (extend [c] records)) ('"' :: doubled front ++ (doubled [c] ++ cs)) := by
  have hgrown := h (front ++ [c])
  rwa [doubled_append, ← List.cons_append, List.append_assoc, ← extend_extend] at hgrown

/-- A quote in front of a field opens it. -/
theorem sound_opening {records : List (List (List Char))} {cs : List Char}
    (h : Sound .quoted records cs) : WritesFrom records ('"' :: cs) := by
  have hopen := h []
  rwa [extend_nil] at hopen

theorem sound_of_not_special {position : Position} {records : List (List (List Char))} {c : Char}
    {cs : List Char} (hposition : position ≠ .quoted) (hclosed : position ≠ .closed)
    (hc : isSpecial c = false) (h : Sound .plain records cs) :
    Sound position (extend [c] records) (c :: cs) := by
  have hempty : WritesFrom (extend [c] records) (c :: cs) := h [c] (List.forall_mem_singleton.2 hc)
  cases position with
  | record => exact hempty.writes
  | field => exact hempty
  | plain =>
      intro front hfront
      have hgrown := h (front ++ [c]) (List.forall_mem_append.2 ⟨hfront, List.forall_mem_singleton.2 hc⟩)
      rwa [List.append_assoc, ← extend_extend] at hgrown
  | quoted => exact absurd rfl hposition
  | closed => exact absurd rfl hclosed

theorem sound_quoted_of_read {c : Char} {cs : List Char} {records : List (List (List Char))}
    (ih : ∀ {position records}, read position cs = some records → Sound position records cs)
    (h : read .quoted (c :: cs) = some records) : Sound .quoted records (c :: cs) := by
  rw [read] at h
  by_cases hquote : c = '"'
  · rw [if_pos hquote] at h
    subst hquote
    exact ih h
  · rw [if_neg hquote] at h
    obtain ⟨records, hrest, rfl⟩ := Option.map_eq_some_iff.1 h
    intro front
    have hgrown := sound_grown (c := c) (ih hrest) front
    rwa [doubled_cons, if_neg hquote] at hgrown

theorem sound_quote_of_read {position : Position} {cs : List Char} {records : List (List (List Char))}
    (ih : ∀ {position records}, read position cs = some records → Sound position records cs)
    (hposition : position ≠ .quoted) (h : read position ('"' :: cs) = some records) :
    Sound position records ('"' :: cs) := by
  cases position with
  | record =>
      have hopened : Sound .quoted records cs := ih h
      exact (sound_opening hopened).writes
  | field =>
      have hopened : Sound .quoted records cs := ih h
      exact sound_opening hopened
  | plain => exact absurd h (by simp [read])
  | quoted => exact absurd rfl hposition
  | closed =>
      obtain ⟨records, hrest, rfl⟩ := Option.map_eq_some_iff.1 h
      exact sound_grown (ih hrest)

theorem sound_of_read {position : Position} {cs : List Char} {records : List (List (List Char))}
    (h : read position cs = some records) : Sound position records cs := by
  induction cs generalizing position records with
  | nil =>
      rw [read] at h
      obtain ⟨rfl, h⟩ := Option.ite_none_right_eq_some.1 h
      cases h
      exact .nil
  | cons c cs ih =>
      by_cases hquoted : position = .quoted
      · subst hquoted
        exact sound_quoted_of_read ih h
      -- outside quotes the character decides, and each position says what it makes of it
      by_cases hcomma : c = ','
      · subst hcomma
        rw [read_comma hquoted] at h
        obtain ⟨records, hrest, rfl⟩ := Option.map_eq_some_iff.1 h
        exact sound_comma hquoted (ih hrest)
      by_cases hlf : c = '\n'
      · subst hlf
        rw [read_lineFeed hquoted] at h
        obtain ⟨records, hrest, rfl⟩ := Option.map_eq_some_iff.1 h
        exact sound_lineFeed hquoted (ih hrest)
      by_cases hquote : c = '"'
      · subst hquote
        exact sound_quote_of_read ih hquoted h
      by_cases hcr : c = '\r' ∨ position = .closed
      · have hnone : read position (c :: cs) = none := by
          cases position <;> simp_all [read]
        exact absurd (hnone.symm.trans h) (Option.some_ne_none _).symm
      · obtain ⟨hcr, hclosed⟩ := not_or.1 hcr
        have hc : isSpecial c = false := isSpecial_eq_false_iff.2 ⟨hcomma, hquote, hcr, hlf⟩
        rw [read_of_not_special hquoted hclosed hc] at h
        obtain ⟨records, hrest, rfl⟩ := Option.map_eq_some_iff.1 h
        exact sound_of_not_special hquoted hclosed hc (ih hrest)

/-- The reader knows the rules: it reads records from a text just if the text writes them. -/
theorem decode_eq_some_iff {records : List (List (List Char))} {text : List Char} :
    decode text = some records ↔ Writes records text :=
  ⟨fun h => @sound_of_read .record _ _ h, decode_of_writes⟩

/-- A quote in a field without quotes is against the rules. -/
example : decode ['a', ',', '"', '"', '"', 'b', '"', '\n'] = some [[['a'], ['"', 'b']]] ∧
    decode ['a', '"', '\n'] = none := by decide

/-! ## Writers -/

/-- Records as they are written where each field is written in a given way. -/
def encodeWith (write : List Char → List Char) (records : List (List (List Char))) : List Char :=
  records.flatMap fun fields => List.intercalate [','] (fields.map write) ++ ['\n']

theorem encode_eq_encodeWith (records : List (List (List Char))) :
    encode records = encodeWith encodeField records :=
  rfl

theorem writesField_encodeField (field : List Char) : WritesField field (encodeField field) := by
  rw [encodeField]
  by_cases h : field.any isSpecial = true
  · rw [if_pos h]
    exact .quoted field
  · rw [if_neg h]
    refine .plain fun c hc => ?_
    exact Bool.eq_false_iff.2 fun hspecial => h (List.any_eq_true.2 ⟨c, hc, hspecial⟩)

section

variable {write : List Char → List Char} (hwrite : ∀ field, WritesField field (write field))

include hwrite

theorem writesRecord_intercalate {fields : List (List Char)} (h : fields ≠ []) :
    WritesRecord fields (List.intercalate [','] (fields.map write) ++ ['\n']) := by
  induction fields with
  | nil => exact absurd rfl h
  | cons field fields ih =>
      cases fields with
      | nil =>
          rw [List.map_singleton, List.intercalate_singleton]
          exact .last (hwrite field)
      | cons next fields =>
          have hrest := ih (List.cons_ne_nil _ _)
          rw [List.map_cons] at hrest
          rw [List.map_cons, List.map_cons, List.intercalate_cons_cons, List.append_assoc,
            List.append_assoc]
          exact .cons (hwrite field) hrest

/-- Whoever writes fields by the rules writes records by the rules. -/
theorem writes_encodeWith {records : List (List (List Char))} (h : ∀ fields ∈ records, fields ≠ []) :
    Writes records (encodeWith write records) := by
  induction records with
  | nil => exact .nil
  | cons fields records ih =>
      obtain ⟨hfields, hrecords⟩ := List.forall_mem_cons.1 h
      exact .cons (writesRecord_intercalate hwrite hfields) (ih hrecords)

end

theorem Writes.ne_nil {records : List (List (List Char))} {text : List Char} (h : Writes records text) :
    ∀ fields ∈ records, fields ≠ [] := by
  induction h with
  | nil => simp
  | cons h _ ih =>
      refine List.forall_mem_cons.2 ⟨?_, ih⟩
      cases h <;> simp

/-- Records that have fields are read back as they were written. -/
theorem decode_encode {records : List (List (List Char))} (h : ∀ fields ∈ records, fields ≠ []) :
    decode (encode records) = some records := by
  rw [encode_eq_encodeWith]
  exact decode_of_writes (writes_encodeWith writesField_encodeField h)

end TruthTables.Text.Csv
