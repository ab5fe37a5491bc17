import TruthTables.Formula.Fault
import TruthTables.SymbolSet

set_option autoImplicit false

/-! # Formula texts

A formula text is judged and taken apart by its significant characters, those that are no blanks. Each
keeps its position in the text, so that a fault can name the place.

`checkText` judges a whole text: characters first, then whether there is anything, then the first
character, then the parentheses from left to right. `tokensOf` takes a text apart and looks at the
characters alone, so it also serves texts that nobody has judged. -/

namespace TruthTables

/-- The characters of a text that are no blanks, with their positions. -/
def significant (text : List Char) : List (Char × Nat) :=
  text.zipIdx.filter fun entry => !Text.isBlank entry.1

/-! ## Judging a text -/

/-- Walk over the parentheses with `depth` groups open: no `)` may come without a group to close, and
    all groups must be closed at the end. -/
def checkBalance : Nat → List (Char × Nat) → Except Imbalance Unit
  | 0, [] => .ok ()
  | depth + 1, [] => .error (.unclosed (depth + 1))
  | depth, (c, position) :: rest =>
    if c = '(' then checkBalance (depth + 1) rest
    else if c = ')' then
      match depth with
      | 0 => .error (.frontLoaded position)
      | depth + 1 => checkBalance depth rest
    else checkBalance depth rest

namespace SymbolSet

/-- Whether a character has a meaning in formulas over these symbols. -/
def isKnown (s : SymbolSet) (c : Char) : Bool :=
  s.contains c || isReserved c

/-- Judge significant characters. -/
def checkSignificant (s : SymbolSet) (chars : List (Char × Nat)) : Except FormulaFault Unit :=
  match chars.find? fun entry => !s.isKnown entry.1 with
  | some (c, position) => .error (.illegalCharacter c position)
  | none =>
    match chars with
    | [] => .error .empty
    | (c, _) :: _ =>
      if s.contains c || canBegin c then
        match checkBalance 0 chars with
        | .error imbalance => .error (.parentheses imbalance)
        | .ok () => .ok ()
      else .error (.firstCharacter c)

/-- Judge a formula text. -/
def checkText (s : SymbolSet) (formula : String) : Except FormulaFault Unit :=
  s.checkSignificant (significant formula.toList)

/-- Judge formula texts in order, up to the first with a fault, which is returned with it. -/
def checkTexts (s : SymbolSet) : List String → Except (String × FormulaFault) Unit
  | [] => .ok ()
  | formula :: rest =>
    match s.checkText formula with
    | .error fault => .error (formula, fault)
    | .ok () => s.checkTexts rest

/-! ## Tokens of a text -/

/-- The token that a character writes, if it is reserved or declared. -/
def token? (s : SymbolSet) (c : Char) : Option Token :=
  if c = '(' then some .opening
  else if c = ')' then some .closing
  else match Operator.ofChar? c with
    | some o => some (.operator o)
    | none => (s.get? c).map .symbol

/-- The tokens of significant characters, up to the first that writes none. -/
def tokensOfSignificant (s : SymbolSet) : List (Char × Nat) → Except FormulaFault (List Token)
  | [] => .ok []
  | (c, position) :: rest =>
    match s.token? c with
    | none => .error (.illegalCharacter c position)
    | some token => (s.tokensOfSignificant rest).map (token :: ·)

/-- Take a text apart into tokens. -/
def tokensOf (s : SymbolSet) (formula : String) : Except FormulaFault (List Token) :=
  s.tokensOfSignificant (significant formula.toList)

end SymbolSet

end TruthTables
