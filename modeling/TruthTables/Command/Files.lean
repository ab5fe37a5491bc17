set_option autoImplicit false

/-! # Files

What the commands ask of a file system: to read a whole file, and to write one. A command takes these two
operations as an argument and can therefore run on real files as well as on files in memory (see
`TruthTables.Command.FileStore`). Reading has two stages that can fail, and a message may name the
stage: a directory, for one, can be opened, but no bytes can be read from it. -/

namespace TruthTables

/-! ## Faults -/

/-- Why the system refuses an operation on a file. -/
inductive FileFault
  /-- There is nothing at the path, or a directory on the way to it is missing. -/
  | missing
  /-- What should be a directory is a file. -/
  | notDirectory
  /-- What should be a file is a directory. -/
  | isDirectory
  /-- The path or one of its names is too long. -/
  | nameTooLong
  /-- There is no room for what is written. -/
  | noSpace
  /-- The path holds the character that ends a path for the system. -/
  | nulInPath
  | other (description : String) (code : Nat)
  deriving DecidableEq, Repr

namespace FileFault

/-- A fault that the system gives a number. -/
def numbered (description : String) (code : Nat) : String :=
  description ++ " (os error " ++ toString code ++ ")"

/-- The wording of a fault. -/
def message : FileFault → String
  | .missing => numbered "No such file or directory" 2
  | .notDirectory => numbered "Not a directory" 20
  | .isDirectory => numbered "Is a directory" 21
  | .noSpace => numbered "No space left on device" 28
  | .nameTooLong => numbered "File name too long" 36
  | .nulInPath => "file name contained an unexpected NUL byte"
  | .other description code => numbered description code

end FileFault

/-- Why the bytes of a file are not to be had. -/
inductive ReadFault
  /-- The file cannot be opened. -/
  | opening (fault : FileFault)
  /-- The file can be opened, but not read. -/
  | reading (fault : FileFault)
  deriving DecidableEq, Repr

/-- The wording of a fault, whatever the stage. -/
def ReadFault.message : ReadFault → String
  | .opening fault | .reading fault => fault.message

/-! ## Operations -/

/-- The two operations on files, as actions of a monad. -/
structure Files (m : Type → Type) where
  /-- The bytes of a file. -/
  read : (path : String) → m (Except ReadFault ByteArray)
  /-- Create a file, or replace what it held. -/
  write : (path text : String) → m (Except FileFault Unit)

end TruthTables
