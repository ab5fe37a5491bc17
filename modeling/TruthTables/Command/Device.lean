set_option autoImplicit false

/-! # Devices

Files that keep nothing: what is written to them is forgotten, refused or handed on. They stand at fixed
places, among them the three streams of a command. Its input is empty, and what it writes to the stream
for errors is not looked at again, so these two behave like the device that forgets. -/

namespace TruthTables

/-- What happens to a text that is written to a device. -/
inductive Device
  /-- It is forgotten. -/
  | null
  /-- There is no room for it. -/
  | full
  /-- It goes to the output of the command. -/
  | output
  deriving DecidableEq, Repr

namespace Device

/-- The places of a stream with a given name and number. -/
def streamPlaces (name number : String) : List (List String) :=
  [["dev", name], ["dev", "fd", number], ["proc", "self", "fd", number]]

/-- The devices at their places, each a list of names from the root. -/
def table : List (List String × Device) :=
  [(["dev", "null"], null), (["dev", "full"], full)]
    ++ (streamPlaces "stdin" "0").map (fun place => (place, null))
    ++ (streamPlaces "stdout" "1").map (fun place => (place, output))
    ++ (streamPlaces "stderr" "2").map (fun place => (place, null))

/-- The device at a place. -/
def at? (place : List String) : Option Device :=
  (table.find? fun entry => entry.1 == place).map Prod.snd

end Device

end TruthTables
