set_option autoImplicit false

/-! # Options

How a command line is taken apart. Words that begin with a hyphen are options: `--name`, or `-n` with
letters that may be combined. An option may take a value, attached (`--name=value`, `-nvalue`,
`-n=value`) or as the next word, which must not look like an option. All other words are operands; a
single hyphen is one, and behind `--` every word is.

Words are taken from left to right, and the first that cannot be taken, or that asks for something
else than a run, decides. -/

namespace TruthTables

/-- What an option does. -/
inductive OptionKind
  /-- It is given or not, at most once. -/
  | flag
  /-- It may be given any number of times. -/
  | repeatable
  /-- It takes a value of a certain form, at most once. -/
  | value (accepts : String → Bool)
  /-- It asks for the version instead of a run. -/
  | version
  /-- It asks for help instead of a run. -/
  | help

/-- An option of a command. -/
structure OptionSpec where
  long : String
  short? : Option Char
  kind : OptionKind

/-- The words that a command understands. -/
structure Usage where
  options : List OptionSpec
  /-- Whether a word may be the operand with a given number, counted from 0. -/
  acceptsOperand : Nat → String → Bool

/-- What a command line says. -/
structure Arguments where
  flags : List String
  values : List (String × String)
  operands : Array String
  deriving DecidableEq, Repr

/-- Why no run takes place. -/
inductive Halt
  /-- The command line cannot be understood. -/
  | misuse
  | version
  | help
  deriving DecidableEq, Repr

namespace Arguments

/-- Whether a flag is given. -/
def has (a : Arguments) (long : String) : Bool :=
  a.flags.contains long

/-- The value of an option. -/
def value? (a : Arguments) (long : String) : Option String :=
  (a.values.find? fun entry => entry.1 == long).map Prod.snd

/-- Note an option that is given without a value. -/
def addFlag (a : Arguments) (spec : OptionSpec) : Except Halt Arguments :=
  match spec.kind with
  | .version => .error .version
  | .help => .error .help
  | .value _ => .error .misuse
  | .repeatable => if a.has spec.long then .ok a else .ok { a with flags := a.flags ++ [spec.long] }
  | .flag => if a.has spec.long then .error .misuse else .ok { a with flags := a.flags ++ [spec.long] }

/-- Note the value of an option. -/
def addValue (a : Arguments) (spec : OptionSpec) (value : String) : Except Halt Arguments :=
  match spec.kind with
  | .value accepts =>
    if accepts value && (a.value? spec.long).isNone then
      .ok { a with values := a.values ++ [(spec.long, value)] }
    else .error .misuse
  | _ => .error .misuse

/-- Note an operand. -/
def addOperand (a : Arguments) (usage : Usage) (word : String) : Except Halt Arguments :=
  if usage.acceptsOperand a.operands.size word then .ok { a with operands := a.operands.push word }
  else .error .misuse

end Arguments

namespace OptionSpec

/-- Whether an option takes a value. -/
def takesValue (spec : OptionSpec) : Bool :=
  match spec.kind with
  | .value _ => true
  | _ => false

end OptionSpec

/-- How far a command line is read: what it said, the option that waits for its value, and whether
    options have ended. -/
structure Progress where
  arguments : Arguments
  waiting : Option OptionSpec
  ended : Bool

namespace Usage

/-- Read the letters behind a single hyphen. -/
def readLetters (usage : Usage) : List Char → Arguments → Except Halt Progress
  | [], a => .ok { arguments := a, waiting := none, ended := false }
  | letter :: rest, a =>
    match usage.options.find? fun spec => spec.short? == some letter with
    | none => .error .misuse
    | some spec =>
      if spec.takesValue then
        match rest with
        | [] => .ok { arguments := a, waiting := some spec, ended := false }
        | '=' :: value => do
          let a' ← a.addValue spec (String.ofList value)
          return { arguments := a', waiting := none, ended := false }
        | value => do
          let a' ← a.addValue spec (String.ofList value)
          return { arguments := a', waiting := none, ended := false }
      else do
        let a' ← a.addFlag spec
        usage.readLetters rest a'

/-- Read what stands behind two hyphens. -/
def readLong (usage : Usage) (word : List Char) (a : Arguments) : Except Halt Progress :=
  let name := String.ofList (word.takeWhile (· != '='))
  match usage.options.find? fun spec => spec.long == name, word.dropWhile (· != '=') with
  | none, _ => .error .misuse
  | some spec, [] =>
    if spec.takesValue then .ok { arguments := a, waiting := some spec, ended := false }
    else do
      let a' ← a.addFlag spec
      return { arguments := a', waiting := none, ended := false }
  | some spec, _ :: value => do
    let a' ← a.addValue spec (String.ofList value)
    return { arguments := a', waiting := none, ended := false }

/-- Whether a word looks like an option. -/
def looksLikeOption (word : List Char) : Bool :=
  match word with
  | '-' :: _ :: _ => true
  | _ => false

/-- Read one word. -/
def readWord (usage : Usage) (p : Progress) (word : String) : Except Halt Progress :=
  match p with
  | { arguments, waiting, ended := true } => do
    let a ← arguments.addOperand usage word
    return { arguments := a, waiting, ended := true }
  | { arguments, waiting := some spec, ended := false } =>
    if looksLikeOption word.toList then .error .misuse
    else do
      let a ← arguments.addValue spec word
      return { arguments := a, waiting := none, ended := false }
  | { arguments, waiting := none, ended := false } =>
    match word.toList with
    | ['-', '-'] => .ok { arguments, waiting := none, ended := true }
    | '-' :: '-' :: rest => usage.readLong rest arguments
    | '-' :: letter :: rest => usage.readLetters (letter :: rest) arguments
    | _ => do
      let a ← arguments.addOperand usage word
      return { arguments := a, waiting := none, ended := false }

/-- Read a command line. -/
def read (usage : Usage) (words : List String) : Except Halt Arguments := do
  let start : Progress :=
    { arguments := { flags := [], values := [], operands := #[] }, waiting := none, ended := false }
  let p ← words.foldlM usage.readWord start
  match p.waiting with
  | some _ => .error .misuse
  | none => .ok p.arguments

end Usage

/-! ## Forms of values -/

/-- Read an unsigned number of 64 bits: decimal digits, perhaps behind a plus sign. -/
def readWord64? (text : String) : Option Nat :=
  let digits := match text.toList with
    | '+' :: rest => rest
    | cs => cs
  if digits.isEmpty || !digits.all Char.isDigit then none
  else
    let n := digits.foldl (fun n c => 10 * n + (c.toNat - '0'.toNat)) 0
    if n < UInt64.size then some n else none

end TruthTables
