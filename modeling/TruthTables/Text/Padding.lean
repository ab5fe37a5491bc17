set_option autoImplicit false

/-! # Padding

A text in a field of a given width, counted in characters. A text that is too long stays whole.

The width may be any number. Formatters as recent as the character tables in use here, which are of
Unicode 17, keep a width that is given at run time in 16 bits and refuse one above 65535. Older ones do
not, and neither does `pad`. -/

namespace TruthTables.Text

/-- Where a short text stands in its field. -/
inductive Alignment
  | left
  | right
  | centre
  deriving DecidableEq, Repr

/-- Fill a text up to `width` characters, also beyond 65535. In the centre the odd filler goes to the
    right. -/
def pad (align : Alignment) (fill : Char) (width : Nat) (cs : List Char) : List Char :=
  let missing := width - cs.length
  match align with
  | .left => cs ++ List.replicate missing fill
  | .right => List.replicate missing fill ++ cs
  | .centre => List.replicate (missing / 2) fill ++ cs ++ List.replicate (missing - missing / 2) fill

/-- A padded text is as wide as its field, or as long as it was. -/
theorem length_pad (align : Alignment) (fill : Char) (width : Nat) (cs : List Char) :
    (pad align fill width cs).length = max width cs.length := by
  cases align <;> simp [pad] <;> omega

end TruthTables.Text
