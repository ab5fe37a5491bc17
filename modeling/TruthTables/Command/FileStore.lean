import TruthTables.Command.Device
import TruthTables.Command.Outcome

set_option autoImplicit false

/-! # Files in memory

A file system as plain data: the texts of its files, each at a *place*, the list of names that lead to it
from the root. Directories need not be listed; a place is one if a file or a device lies below it, or the
directory where paths begin. A path is followed name by name, and the first name that leads nowhere
decides what is reported. -/

namespace TruthTables

/-! ## Paths -/

/-- The names between the slashes of a path, in order, and the slashes at its ends. -/
structure Path where
  names : List String
  fromRoot : Bool
  slashBehind : Bool
  deriving DecidableEq, Repr

namespace Path

/-- The most bytes of a path. -/
def maxBytes : Nat := 4095

/-- The most bytes of a name in a path. -/
def maxNameBytes : Nat := 255

/-- Split at every slash. -/
def split : List Char → List (List Char)
  | [] => [[]]
  | '/' :: cs => [] :: split cs
  | c :: cs =>
    match split cs with
    | [] => [[c]]
    | name :: rest => (c :: name) :: rest

/-- Take a path apart. Several slashes in a row count as one. -/
def ofString (path : String) : Path where
  names := ((split path.toList).map String.ofList).filter (· != "")
  fromRoot := path.startsWith "/"
  slashBehind := path.endsWith "/"

/-- Take a path apart that the system may refuse as a whole. -/
def parse (path : String) : Except FileFault Path :=
  if path.toList.contains '\x00' then .error .nulInPath
  else if path = "" then .error .missing
  else if maxBytes < path.utf8ByteSize then .error .nameTooLong
  else .ok (ofString path)

end Path

/-! ## Stores -/

/-- The directory where paths begin, the texts of the files at their places, and what was written to
    the output through a device. -/
structure FileStore where
  directory : List String
  files : List (List String × String)
  output : String
  deriving DecidableEq, Repr

namespace FileStore

/-- The store of files with the given paths from a directory. -/
def ofList (directory : List String) (files : List (String × String)) : FileStore where
  directory := directory
  files := files.map fun (path, text) => (directory ++ (Path.ofString path).names, text)
  output := ""

/-- The text of the file at a place. Devices have nothing to read. -/
def text? (s : FileStore) (place : List String) : Option String :=
  match Device.at? place with
  | some _ => some ""
  | none => (s.files.find? fun file => file.1 == place).map Prod.snd

/-- The directories at the root of every system. -/
def rootDirectories : List String :=
  ["bin", "boot", "dev", "etc", "home", "lib", "media", "mnt", "opt", "proc", "root", "run", "sbin", "srv",
    "sys", "tmp", "usr", "var"]

/-- Whether a place lies on the way to another one, before its end. -/
def isAbove (place other : List String) : Bool :=
  place.isPrefixOf other && place != other

/-- Whether a place is a directory. -/
def isDirectory (s : FileStore) (place : List String) : Bool :=
  place.isPrefixOf s.directory
    || rootDirectories.any (fun name => place == [name])
    || Device.table.any (fun entry => isAbove place entry.1)
    || s.files.any fun file => isAbove place file.1

/-! ## Following a path -/

/-- The place that a name leads to from a directory. The root lies above itself. -/
def follow (directory : List String) (name : String) : Except FileFault (List String) :=
  if name = "." then .ok directory
  else if name = ".." then .ok directory.dropLast
  else if Path.maxNameBytes < name.utf8ByteSize then .error .nameTooLong
  else .ok (directory ++ [name])

/-- The directory that a name leads to from another one. -/
def enter (s : FileStore) (directory : List String) (name : String) :
    Except FileFault (List String) :=
  match follow directory name with
  | .error fault => .error fault
  | .ok place =>
    if s.isDirectory place then .ok place
    else if (s.text? place).isSome then .error .notDirectory
    else .error .missing

/-- The directory that a path leads to before its last name. -/
def parent (s : FileStore) (path : Path) : Except FileFault (List String) :=
  path.names.dropLast.foldlM s.enter (if path.fromRoot then [] else s.directory)

/-- The place that a path leads to by its last name, if it has names at all. -/
def place (s : FileStore) (path : Path) : Except FileFault (List String) :=
  match s.parent path, path.names.getLast? with
  | .error fault, _ => .error fault
  | .ok directory, none => .ok directory
  | .ok directory, some name => follow directory name

/-! ## Reading and writing -/

/-- Read the file at a path. A slash behind the last name asks for a directory. -/
def read (s : FileStore) (path : String) : Except ReadFault ByteArray :=
  match Path.parse path with
  | .error fault => .error (.opening fault)
  | .ok path =>
    match s.place path with
    | .error fault => .error (.opening fault)
    | .ok place =>
      if s.isDirectory place then .error (.reading .isDirectory)
      else match s.text? place with
        | none => .error (.opening .missing)
        | some text =>
          if path.slashBehind then .error (.opening .notDirectory) else .ok text.toUTF8

/-- The place of a file that can be created or replaced. A slash behind the last name is refused
    before that name is followed. -/
def writable (s : FileStore) (path : Path) : Except FileFault (List String) :=
  match s.parent path with
  | .error fault => .error fault
  | .ok _ =>
    if path.slashBehind then .error .isDirectory
    else match s.place path with
      | .error fault => .error fault
      | .ok place => if s.isDirectory place then .error .isDirectory else .ok place

/-- Put a text at a place. -/
def put (s : FileStore) (place : List String) (text : String) : Except FileFault FileStore :=
  match Device.at? place with
  | some .null => .ok s
  | some .full => if text = "" then .ok s else .error .noSpace
  | some .output => .ok { s with output := s.output ++ text }
  | none => .ok { s with files := (place, text) :: s.files.filter fun file => file.1 != place }

/-- Write the file at a path. -/
def write (s : FileStore) (path text : String) : Except FileFault FileStore :=
  match Path.parse path with
  | .error fault => .error fault
  | .ok path =>
    match s.writable path with
    | .error fault => .error fault
    | .ok place => s.put place text

/-- The operations on a store that is carried along. -/
def access : Files (StateM FileStore) where
  read path := fun s => (s.read path, s)
  write path text := fun s =>
    match s.write path text with
    | .error fault => (.error fault, s)
    | .ok s' => (.ok (), s')

/-- Run a command on a store. Its output begins with what went there through a device. -/
def run (s : FileStore) (command : StateM FileStore Outcome) : Outcome × FileStore :=
  let (outcome, s') := command s
  ({ outcome with output := s'.output ++ outcome.output }, s')

/-- What was put at a place is found there unless a device keeps it, and other places keep their
    texts. -/
theorem text?_put {s s' : FileStore} {place : List String} {text : String}
    (h : s.put place text = .ok s') (other : List String) :
    s'.text? other =
      if other = place ∧ Device.at? place = none then some text else s.text? other := by
  rw [put] at h
  split at h
  · next hd => cases h; simp [hd]
  · next hd =>
    split at h
    · cases h; simp [hd]
    · cases h
  · next hd => cases h; simp [hd, text?]
  · next hd =>
    cases h
    by_cases ho : other = place
    · subst ho
      simp [text?, hd]
    · have hne : (place == other) = false := beq_eq_false_iff_ne.2 (Ne.symm ho)
      have hfind : (s.files.filter fun file => file.1 != place).find? (fun file => file.1 == other)
          = s.files.find? fun file => file.1 == other := by
        rw [List.find?_filter]
        congr 1
        funext file
        by_cases hf : file.1 = other <;> simp [hf, ho]
      simp only [text?, ho, if_false, false_and, List.find?_cons, hne, hfind]

end FileStore

end TruthTables
