import TruthTables.Text.Blank
import TruthTables.Text.Lines

set_option autoImplicit false

/-! # Problem files

A problem file lists symbols and formulas: the symbols on its first line, separated by commas and blanks,
then a formula a line. A `#` begins a comment that runs to the end of the line; blanks around a line do
not count, and lines with nothing else are skipped. Nothing is judged here: entries and formulas are
texts. -/

namespace TruthTables

/-- What can be wrong with a problem file. -/
inductive ProblemFault
  /-- There is no line with symbols. -/
  | missingSymbols
  /-- The bytes of the file are not text in UTF-8. -/
  | notText
  deriving DecidableEq, Repr

/-- The wording of a fault. -/
def ProblemFault.message : ProblemFault → String
  | .missingSymbols => "missing symbol list"
  | .notText => "stream did not contain valid UTF-8"

/-- Symbols and formulas as they stand in a file. -/
structure Problem where
  symbols : List String
  formulas : List String
  deriving DecidableEq, Repr

namespace Problem

/-! ## Reading -/

/-- Whether a character separates symbols. -/
def isSeparator (c : Char) : Bool :=
  Text.isBlank c || c == ','

/-- The maximal runs of characters that are no separators. -/
def entries (cs : List Char) : List (List Char) :=
  match _h : cs.dropWhile isSeparator with
  | [] => []
  | c :: rest =>
    (c :: rest.takeWhile fun d => !isSeparator d) :: entries (rest.dropWhile fun d => !isSeparator d)
termination_by cs.length
decreasing_by
  have h₁ : (cs.dropWhile isSeparator).length ≤ cs.length :=
    (List.dropWhile_sublist _).length_le
  have h₂ : (rest.dropWhile fun d => !isSeparator d).length ≤ rest.length :=
    (List.dropWhile_sublist _).length_le
  rw [_h, List.length_cons] at h₁
  omega

/-- Split a symbol list at commas and blanks. -/
def splitSymbols (list : String) : List String :=
  (entries list.toList).map String.ofList

/-- What a line says: the part before the comment, without the blanks around it. -/
def content (line : List Char) : List Char :=
  Text.trim (line.takeWhile (· != '#'))

/-- The lines of a file that say something. -/
def contents (text : List Char) : List (List Char) :=
  ((Text.lines text).map content).filter fun line => !line.isEmpty

/-- Read a problem file. -/
def ofText (text : String) : Except ProblemFault Problem :=
  match contents text.toList with
  | [] => .error .missingSymbols
  | header :: rest =>
    .ok { symbols := (entries header).map String.ofList, formulas := rest.map String.ofList }

/-- Read the bytes of a problem file. -/
def ofBytes (bytes : ByteArray) : Except ProblemFault Problem :=
  match String.fromUTF8? bytes with
  | none => .error .notText
  | some text => ofText text

/-! ## Writing -/

/-- The problem file with the symbols on one line, separated by commas and spaces. -/
def text (p : Problem) : String :=
  String.ofList (Text.unlines
    (List.intercalate [',', ' '] (p.symbols.map String.toList) :: p.formulas.map String.toList))

end Problem

end TruthTables
