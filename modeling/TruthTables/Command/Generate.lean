import TruthTables.Command.Outcome
import TruthTables.Draws.SplitMix
import TruthTables.Generator

set_option autoImplicit false

/-! # The generating command

Writes a random problem file over given symbols to the output or to a file. -/

namespace TruthTables.Generate

/-- The name and version of the command. -/
def version : String := "formula_gen 0.1.0\n"

/-- The usage of the command. -/
def help : String :=
  "Usage: [OPTIONS] <SYMBOLS> <FORMULAS>\n\n"
    ++ "  -d, --depth <DEPTH>   the deepest nesting of a formula, 4 if not given\n"
    ++ "      --seed <SEED>     the seed of the random draws\n"
    ++ "  -o, --output <FILE>   write to a file\n"
    ++ "  -h, --help            print this text\n"
    ++ "  -V, --version         print the version\n"

/-- The command line of the command: the symbols, then the number of formulas. -/
def usage : Usage where
  options :=
    let number := OptionKind.value fun text => (readWord64? text).isSome
    [{ long := "depth", short? := some 'd', kind := number },
      { long := "seed", short? := none, kind := number },
      { long := "output", short? := some 'o', kind := .value fun path => path != "" },
      { long := "version", short? := some 'V', kind := .version },
      { long := "help", short? := some 'h', kind := .help }]
  acceptsOperand
    | 0, _ => true
    | 1, count => (readWord64? count).isSome
    | _, _ => false

/-- The depth of a formula where none is given. -/
def defaultDepth : Nat := 4

variable {m : Type → Type} [Monad m]

/-- Run the command up to its output, with a seed in case none is given. -/
def result (files : Files m) (seed : Nat) (words : List String) : CommandM m String := do
  let a ← CommandM.readArguments usage words
  match a.operands.toList with
  | [names, count] =>
    let number (text : String) (absent : Nat) : Nat := (readWord64? text).getD absent
    let option (long : String) (absent : Nat) : Nat :=
      ((a.value? long).bind readWord64?).getD absent
    let symbols ← CommandM.ofExcept GeneratorFault.message (Generator.symbolsOf names)
    let source : SplitMix := { counter := (option "seed" seed).toUInt64 }
    let (problem, _) ← CommandM.ofExcept GeneratorFault.message
      (Generator.problemOver SplitMix.draws symbols (number count 0) (option "depth" defaultDepth) source)
    CommandM.emit files (a.value? "output") problem.text
  | _ => throw (.halt .misuse)

/-- Run the command on its words. -/
def run (files : Files m) (seed : Nat) (words : List String) : m Outcome := do
  return Outcome.ofResult version help (← (result files seed words).run)

end TruthTables.Generate
