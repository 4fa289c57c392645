/-
Blank characters: the White_Space property of the character standard, which
decides what trimming removes.
-/

namespace ImportResolution.Text

/-- The twenty-five characters with the White_Space property. -/
def isBlank (c : Char) : Bool :=
  let n := c.toNat
  (9 ≤ n && n ≤ 13) || n = 0x20 || n = 0x85 || n = 0xA0 || n = 0x1680 ||
    (0x2000 ≤ n && n ≤ 0x200A) || n = 0x2028 || n = 0x2029 || n = 0x202F ||
    n = 0x205F || n = 0x3000

/-- The text without the blanks at its two ends. -/
def trim (s : String) : String :=
  String.ofList ((s.toList.dropWhile isBlank).reverse.dropWhile isBlank).reverse

/-- Capital letters of the basic alphabet made small; other characters stay. -/
def lowerBasic (s : String) : String :=
  String.ofList (s.toList.map Char.toLower)

end ImportResolution.Text
