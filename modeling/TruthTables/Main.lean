import TruthTables.Command.Generate
import TruthTables.Command.Tabulate

set_option autoImplicit false

/-! # The program

Runs the commands on the files of the system. The first word `generate` chooses the generating command;
without it all words are those of the table command. -/

namespace TruthTables.Program

/-- The fault behind a system error. -/
def faultOf : IO.Error → FileFault
  | .noFileOrDirectory _ _ _ => .missing
  | .inappropriateType _ 21 _ => .isDirectory
  | .inappropriateType _ 20 _ => .notDirectory
  | .permissionDenied _ code _ => .other "Permission denied" code.toNat
  | .invalidArgument _ 36 _ => .nameTooLong
  | .invalidArgument _ 22 _ => .nulInPath
  | e => .other (toString e) 5

/-- The files of the system. -/
def systemFiles : Files IO where
  read path := do
    try
      let bytes ← IO.FS.readBinFile path
      return .ok bytes
    catch e =>
      match faultOf e with
      | .isDirectory => return .error (.reading .isDirectory)
      | fault => return .error (.opening fault)
  write path text := do
    try
      IO.FS.writeFile path text
      return .ok ()
    catch e => return .error (faultOf e)

/-- A number that differs from run to run. -/
def freshSeed : IO Nat := do
  let bytes ← IO.getRandomBytes 8
  return bytes.toList.foldl (fun n byte => 256 * n + byte.toNat) 0

/-- Run the command that the words choose. -/
def run (words : List String) : IO Outcome := do
  match words with
  | "generate" :: rest => do
    let seed ← freshSeed
    Generate.run systemFiles seed rest
  | words => Tabulate.run systemFiles words

end TruthTables.Program

/-- Run a command and hand its outcome to the system. -/
def main (words : List String) : IO UInt32 := do
  let outcome ← TruthTables.Program.run words
  IO.print outcome.output
  IO.eprint outcome.message
  return outcome.code.toUInt32
