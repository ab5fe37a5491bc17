import TruthTables.Command.Files
import TruthTables.Command.Options

set_option autoImplicit false

/-! # Outcomes of commands

What a command leaves behind besides files: an exit code, the text on its output, and, if it failed,
a message. -/

namespace TruthTables

/-- The result of a command. -/
structure Outcome where
  code : Nat
  output : String
  message : String
  deriving DecidableEq, Repr

/-- Why a command ends without its result. -/
inductive CommandStop
  | halt (reason : Halt)
  /-- The command failed for a reason, behind which there may be another one. -/
  | failure (message : String) (cause : Option String)
  deriving DecidableEq, Repr

/-- A command with access to files in `m`. -/
abbrev CommandM (m : Type → Type) := ExceptT CommandStop m

namespace Outcome

/-- The message of a failure. -/
def failureText (message : String) (cause : Option String) : String :=
  let head := "Error: " ++ message ++ "\n"
  match cause with
  | none => head
  | some cause => head ++ "\nCaused by:\n    " ++ cause ++ "\n"

/-- The outcome of a command with the given texts about itself. -/
def ofResult (version help : String) : Except CommandStop String → Outcome
  | .ok output => { code := 0, output, message := "" }
  | .error (.halt .version) => { code := 0, output := version, message := "" }
  | .error (.halt .help) => { code := 0, output := help, message := "" }
  | .error (.halt .misuse) => { code := 2, output := "", message := help }
  | .error (.failure message cause) => { code := 1, output := "", message := failureText message cause }

end Outcome

namespace CommandM

variable {m : Type → Type} [Monad m]

/-- Fail with a reason. -/
def fail {α : Type} (message : String) (cause : Option String) : CommandM m α :=
  throw (.failure message cause)

/-- Go on with a result, or fail with the wording of its fault. -/
def ofExcept {ε α : Type} (message : ε → String) : Except ε α → CommandM m α
  | .ok a => pure a
  | .error fault => fail (message fault) none

/-- Read a command line, or stop. -/
def readArguments (usage : Usage) (words : List String) : CommandM m Arguments :=
  match usage.read words with
  | .ok arguments => pure arguments
  | .error reason => throw (.halt reason)

/-- Give out a text: to a file if one is named, else as the command's output. -/
def emit (files : Files m) (path : Option String) (text : String) : CommandM m String :=
  match path with
  | none => pure text
  | some path => do
    ofExcept FileFault.message (← files.write path text)
    return ""

end CommandM

end TruthTables
