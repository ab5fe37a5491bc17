set_option autoImplicit false

/-! # Comma-separated values

Records of fields: a comma between two fields, a line feed behind each record. A field that holds a
comma, a double quote, or a character of a line's end stands between double quotes, with each double
quote inside it written twice. -/

namespace TruthTables.Text.Csv

/-- Whether a character makes quotes necessary. -/
def isSpecial (c : Char) : Bool :=
  c == ',' || c == '"' || c == '\r' || c == '\n'

/-- The characters of a quoted field: each double quote twice. -/
def doubled (field : List Char) : List Char :=
  field.flatMap fun c => if c = '"' then ['"', '"'] else [c]

/-- A field as it is written. -/
def encodeField (field : List Char) : List Char :=
  if field.any isSpecial then '"' :: doubled field ++ ['"'] else field

/-- A record as it is written, with its end. -/
def encodeRecord (fields : List (List Char)) : List Char :=
  List.intercalate [','] (fields.map encodeField) ++ ['\n']

/-- Records as they are written. -/
def encode (records : List (List (List Char))) : List Char :=
  records.flatMap encodeRecord

end TruthTables.Text.Csv
