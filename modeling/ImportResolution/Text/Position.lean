/-
Places in a text as a reader counts them: lines, and bytes within a line, both
from one.
-/

namespace ImportResolution.Text

/-- The number of bytes that characters take. -/
def byteSize (cs : List Char) : Nat :=
  cs.foldr (fun c n => c.utf8Size + n) 0

/-- The characters that lie wholly before a byte offset. -/
def beforeOffset : Nat → List Char → List Char
  | _, [] => []
  | offset, c :: rest =>
    if c.utf8Size ≤ offset then c :: beforeOffset (offset - c.utf8Size) rest else []

/-- The line and column of the place after some characters: one more than the
line ends among them, and one more than the bytes since the last of these. -/
def positionAfter (before : List Char) : Nat × Nat :=
  (before.count '\n' + 1, byteSize (before.reverse.takeWhile (· ≠ '\n')) + 1)

/-- The line and column of a byte offset; past the end means the end. -/
def lineColumn (s : String) (offset : Nat) : Nat × Nat :=
  positionAfter (beforeOffset offset s.toList)

end ImportResolution.Text
