import Mathlib.Data.List.Forall2
import Mathlib.Data.List.ReduceOption
import UnixHomework.Ports.DriverManager
import UnixHomework.Verified.Fgets
import UnixHomework.Verified.Lexemes

/-!
# The console of the driver manager

`main` reads lines of at most 255 bytes and finds out with up to three
`sscanf` calls on the same line what has been typed.  The tests come in the
order of the source: the first word alone decides `create_driver` and
`get_drivers`, whatever follows; then the line is scanned for two numbers, and
again for one.

`cmd` has 32 bytes and `%s` has no width, so a longer first word is written
behind it; `readLine` is undefined there.  Numbers that do not fit an `int`
are stored as `convert` says.
-/

namespace UnixHomework.Ports.DriverManager

open UnixHomework.Verified

/-- What a line of the console asks for. -/
inductive Typed where
  | blank
  | createDriver
  | getDrivers
  | sendTask (pid timer : Int32)
  | getStatus (pid : Int32)
  | exit
  | unknown
  deriving DecidableEq

def exitText : List UInt8 :=
  ascii ['e', 'x', 'i', 't']

section Console

variable (convert : Int → Int32)

end Console

/-! ## What a line says -/

section ReadLine

variable {convert : Int → Int32} {line rest word : List UInt8}
  {numbers : List Int}

end ReadLine

/-! ## A session -/

end UnixHomework.Ports.DriverManager
