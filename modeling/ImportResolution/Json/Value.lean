/-
JSON data and its two written forms: the compact one without blanks, and the
indented one with a line per member. Members keep the order in which they were
declared; characters outside the basic set are written as they are.
-/
import ImportResolution.Decimal.Shortest

namespace ImportResolution.Json

/-- A number: an integer of up to sixty-four bits, or a double by its bits. -/
inductive Number where
  | integer (value : Int)
  | double (bits : UInt64)
deriving DecidableEq, Repr, Inhabited

/-- JSON data. -/
inductive Value where
  | null
  | bool (value : Bool)
  | number (value : Number)
  | text (value : String)
  | array (items : List Value)
  | object (members : List (String × Value))
deriving Repr, Inhabited

-- ============================================================= leaves

/-- Doubles are written with the fewest digits that read back, positionally for
leading digits from `10⁻⁵` to `10¹⁵`, and never without a fraction or exponent. -/
def doubleLayout : Decimal.Layout where
  least := -5
  greatest := 15
  wholeEnding := ['.', '0']
  mark := 'e'
  plus := ['+']

/-- The text of a number. -/
def Number.render : Number → List Char
  | .integer value => Decimal.ofInt value
  | .double bits => Decimal.renderDouble doubleLayout bits

/-- A digit of base sixteen, in small letters. -/
def hexDigit (d : Nat) : Char :=
  if d < 10 then Char.ofNat ('0'.toNat + d) else Char.ofNat ('a'.toNat + (d - 10))

/-- A character inside quotes. Quotes, backslashes and control characters are
escaped, the common control characters by a letter. -/
def escaped (c : Char) : List Char :=
  if c = '"' then ['\\', '"']
  else if c = '\\' then ['\\', '\\']
  else if c = '\n' then ['\\', 'n']
  else if c = '\r' then ['\\', 'r']
  else if c = '\t' then ['\\', 't']
  else if c = '\x08' then ['\\', 'b']
  else if c = '\x0c' then ['\\', 'f']
  else if c.toNat < 32 then
    ['\\', 'u', '0', '0', hexDigit (c.toNat / 16), hexDigit (c.toNat % 16)]
  else [c]

/-- A text in quotes. -/
def quoted (s : String) : List Char :=
  '"' :: s.toList.flatMap escaped ++ ['"']

/-- The text of a truth value. -/
def truth (b : Bool) : List Char :=
  if b then ['t', 'r', 'u', 'e'] else ['f', 'a', 'l', 's', 'e']

-- ======================================================== compact form

mutual

/-- The compact text of a value. -/
def Value.compact : Value → List Char
  | .null => ['n', 'u', 'l', 'l']
  | .bool value => truth value
  | .number value => value.render
  | .text value => quoted value
  | .array [] => ['[', ']']
  | .array (item :: items) => '[' :: item.compact ++ compactItems items
  | .object [] => ['\x7b', '\x7d']
  | .object ((key, value) :: members) =>
    '\x7b' :: quoted key ++ ':' :: value.compact ++ compactMembers members

/-- Further items of an array and its end. -/
def compactItems : List Value → List Char
  | [] => [']']
  | item :: items => ',' :: item.compact ++ compactItems items

/-- Further members of an object and its end. -/
def compactMembers : List (String × Value) → List Char
  | [] => ['\x7d']
  | (key, value) :: members =>
    ',' :: quoted key ++ ':' :: value.compact ++ compactMembers members

end

/-- The compact text of a value. -/
def Value.toText (v : Value) : String :=
  String.ofList v.compact

-- ======================================================= indented form

/-- A new line at a depth, two blanks to a level. -/
def newLine (depth : Nat) : List Char :=
  '\n' :: List.replicate (2 * depth) ' '

mutual

/-- The indented text of a value whose first line starts at a depth. -/
def Value.indented (depth : Nat) : Value → List Char
  | .null => ['n', 'u', 'l', 'l']
  | .bool value => truth value
  | .number value => value.render
  | .text value => quoted value
  | .array [] => ['[', ']']
  | .array (item :: items) =>
    '[' :: newLine (depth + 1) ++ item.indented (depth + 1) ++ indentedItems depth items
  | .object [] => ['\x7b', '\x7d']
  | .object ((key, value) :: members) =>
    '\x7b' :: newLine (depth + 1) ++ quoted key ++ [':', ' '] ++ value.indented (depth + 1) ++
      indentedMembers depth members

/-- Further items of an array and its end. -/
def indentedItems (depth : Nat) : List Value → List Char
  | [] => newLine depth ++ [']']
  | item :: items =>
    ',' :: newLine (depth + 1) ++ item.indented (depth + 1) ++ indentedItems depth items

/-- Further members of an object and its end. -/
def indentedMembers (depth : Nat) : List (String × Value) → List Char
  | [] => newLine depth ++ ['\x7d']
  | (key, value) :: members =>
    ',' :: newLine (depth + 1) ++ quoted key ++ [':', ' '] ++ value.indented (depth + 1) ++
      indentedMembers depth members

end

/-- The indented text of a value. -/
def Value.toIndentedText (v : Value) : String :=
  String.ofList (v.indented 0)

-- ========================================================= small builders

/-- An optional text; absence is null. -/
def Value.ofText? : Option String → Value
  | some s => .text s
  | none => .null

/-- An array of texts. -/
def Value.texts (items : List String) : Value :=
  .array (items.map .text)

/-- A count. -/
def Value.count (n : Nat) : Value :=
  .number (.integer n)

end ImportResolution.Json
