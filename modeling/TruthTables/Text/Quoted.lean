import TruthTables.Text.Combining
import TruthTables.Text.Printable

set_option autoImplicit false

/-! # Quoted and escaped text

Two ways to show a text unmistakably. `quoted` puts it between double quotes and escapes only what a
reader could not see or would misread. `escapedAscii` escapes everything outside visible ASCII, so
that the result can stand inside a quoted label of any file. -/

namespace TruthTables.Text

/-- The escape of a code point: its number in lower-case hexadecimal between braces. -/
def codePointEscape (c : Char) : List Char :=
  ['\\', 'u', '\x7b'] ++ Nat.toDigits 16 c.toNat ++ ['\x7d']

/-- One character inside double quotes: the quote and the backslash get a backslash, four controls
    have letters, and a character that is not printable or would combine with its neighbour is written
    by number. -/
def quotedChar (c : Char) : List Char :=
  if c = '"' || c = '\\' then ['\\', c]
  else if c = '\t' then ['\\', 't']
  else if c = '\n' then ['\\', 'n']
  else if c = '\r' then ['\\', 'r']
  else if c = '\x00' then ['\\', '0']
  else if isCombining c || !isPrintable c then codePointEscape c
  else [c]

/-- A text between double quotes. -/
def quoted (text : String) : String :=
  String.ofList (['"'] ++ text.toList.flatMap quotedChar ++ ['"'])

/-- One character of a label: both kinds of quotes and the backslash get a backslash, three controls
    have letters, visible ASCII and the space stand for themselves, all else is written by number. -/
def escapedAsciiChar (c : Char) : List Char :=
  if c = '"' || c = '\'' || c = '\\' then ['\\', c]
  else if c = '\t' then ['\\', 't']
  else if c = '\n' then ['\\', 'n']
  else if c = '\r' then ['\\', 'r']
  else if 0x20 ≤ c.toNat && c.toNat ≤ 0x7E then [c]
  else codePointEscape c

/-- A text in visible ASCII alone. -/
def escapedAscii (text : String) : String :=
  String.ofList (text.toList.flatMap escapedAsciiChar)

end TruthTables.Text
