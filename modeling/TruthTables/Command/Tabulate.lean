import TruthTables.Command.Outcome
import TruthTables.Expr.Parser
import TruthTables.Forest.Dot
import TruthTables.Problem
import TruthTables.Session
import TruthTables.Table.Csv

set_option autoImplicit false

/-! # The table command

Symbols and formulas come from a problem file, from the command line, or from both; the truth table
goes to the output or to a file, and the parse trees to a file of their own if asked for. Words of the
command line that begin with `@` stand for the lines of the file they name. -/

namespace TruthTables

namespace Tabulate

/-- The name and version of the command. -/
def version : String := "rsprop 0.1.0\n"

/-- The usage of the command. -/
def help : String :=
  "Usage: [OPTIONS] [FORMULA]...\n\n"
    ++ "  -s, --symbols <SYMBOLS>  symbols, separated by commas or whitespace\n"
    ++ "  -i, --input <FILE>       read symbols and formulas from a file\n"
    ++ "  -o, --output <FILE>      write to a file\n"
    ++ "  -f, --format <FORMAT>    table or csv\n"
    ++ "      --dot <FILE>         write the parse trees to a file\n"
    ++ "  -a, --assignments        list the assignments only\n"
    ++ "  -p, --parallel           evaluate rows in parallel\n"
    ++ "  -v, --verbose            log more\n"
    ++ "  -h, --help               print this text\n"
    ++ "  -V, --version            print the version\n"

/-- The command line of the command. -/
def usage : Usage where
  options :=
    let path := OptionKind.value fun path => path != ""
    [{ long := "symbols", short? := some 's', kind := .value fun _ => true },
      { long := "input", short? := some 'i', kind := path },
      { long := "output", short? := some 'o', kind := path },
      { long := "format", short? := some 'f', kind := .value fun f => f == "table" || f == "csv" },
      { long := "dot", short? := none, kind := path },
      { long := "assignments", short? := some 'a', kind := .flag },
      { long := "parallel", short? := some 'p', kind := .flag },
      { long := "verbose", short? := some 'v', kind := .repeatable },
      { long := "version", short? := some 'V', kind := .version },
      { long := "help", short? := some 'h', kind := .help }]
  acceptsOperand _ _ := true

variable {m : Type → Type} [Monad m]

/-! ## Files named on the command line -/

/-- How deeply files of words may name each other. Only files that name each other in a circle come
    near it. -/
def expansionLimit : Nat := UInt32.size

/-- The words of a file, one a line. -/
def wordsOf (files : Files m) (name : String) : CommandM m (List String) := do
  let openFailure := "failed to open file `" ++ name ++ "`"
  let readFailure := "failed to read from file `" ++ name ++ "`"
  match ← files.read name with
  | .error (.opening fault) => CommandM.fail openFailure (some fault.message)
  | .error (.reading fault) => CommandM.fail readFailure (some fault.message)
  | .ok bytes =>
    match String.fromUTF8? bytes with
    | none => CommandM.fail readFailure (some ProblemFault.notText.message)
    | some text => return (Text.lines text.toList).map String.ofList

/-- Replace words that name a file by the words of that file, and so on in these. -/
def expand (files : Files m) : Nat → List String → CommandM m (List String)
  | limit, words => do
    let parts ← words.mapM fun word =>
      match word.toList, limit with
      | '@' :: _, 0 => CommandM.fail "files name each other without end" none
      | '@' :: name, limit + 1 => do
        let words ← wordsOf files (String.ofList name)
        expand files limit words
      | _, _ => pure [word]
    return parts.flatten

/-! ## Running -/

/-- The problem that a command line poses: the symbols given on it replace those of the file, and the
    formulas given on it follow those of the file. -/
def problem (files : Files m) (a : Arguments) : CommandM m Problem := do
  let base ← match a.value? "input" with
    | none => pure { symbols := [], formulas := [] }
    | some path => do
      let bytes ← CommandM.ofExcept ReadFault.message (← files.read path)
      CommandM.ofExcept ProblemFault.message (Problem.ofBytes bytes)
  let symbols := match a.value? "symbols" with
    | none => base.symbols
    | some list => Problem.splitSymbols list
  return { symbols, formulas := base.formulas ++ a.operands.toList }

/-- Go on with a result, or fail with a rejection and what lies behind it. -/
def accept {α : Type} : Except Rejection α → CommandM m α
  | .ok a => pure a
  | .error rejection => CommandM.fail rejection.message rejection.cause?

/-- The assignments of a session as text, one a line. -/
def assignmentText (session : Session) : String :=
  String.ofList (Text.unlines (session.assignments.toList.map Assignment.bits))

/-- What the command gives out for a session. -/
def text (session : Session) (a : Arguments) : Except Rejection String :=
  if a.has "assignments" then .ok (assignmentText session)
  else
    let table := if a.has "parallel" then session.tableInParallel else session.table
    table.map fun t => if a.value? "format" == some "csv" then t.csv else t.layout

/-- Write the parse trees of all formulas to a file. -/
def writeTrees (files : Files m) (session : Session) (path : String) : CommandM m Unit := do
  let trees ← session.texts.mapM fun text =>
    (accept (Expr.ofText session.symbols text)).map fun tree => (text, tree)
  CommandM.ofExcept FileFault.message (← files.write path (Forest.ofTrees trees).dot)

/-- Run the command up to its output. -/
def result (files : Files m) (words : List String) : CommandM m String := do
  let words ← expand files expansionLimit words
  let a ← CommandM.readArguments usage words
  let p ← problem files a
  let session ← accept (Session.ofTexts p.symbols p.formulas)
  match a.value? "dot" with
  | none => pure ()
  | some path => writeTrees files session path
  let text ← accept (text session a)
  CommandM.emit files (a.value? "output") text

/-- Run the command on its words. -/
def run (files : Files m) (words : List String) : m Outcome := do
  return Outcome.ofResult version help (← (result files words).run)

end Tabulate

end TruthTables
