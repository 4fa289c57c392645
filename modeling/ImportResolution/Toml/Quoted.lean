/-
Strings of a settings document, as they are written and as they are read.

A string stands between quotes of one of four kinds: double or single, and each
alone on one line or threefold over several. Between double quotes a backslash
starts an escape; between single ones every character stands for itself. The
writer takes the first kind that needs no escape, save that a tab is escaped
between double quotes, and falls back to escapes.
-/
import ImportResolution.Toml.Scan
import ImportResolution.Json.Document

namespace ImportResolution.Toml

-- ============================================================= classes

/-- Blank, tab. -/
def isGap (c : Char) : Bool :=
  c = ' ' || c = '\t'

/-- What no string may hold as it is: control characters other than the tab. -/
def isControl (c : Char) : Bool :=
  (c.toNat < 0x20 && c != '\t') || c = '\x7f'

/-- What a string on one line may hold between double quotes as it is. -/
def isBasic (c : Char) : Bool :=
  !isControl c && c != '"' && c != '\\'

/-- What a string may hold between single quotes. -/
def isLiteral (c : Char) : Bool :=
  !isControl c && c != '\''

-- ============================================================== escapes

/-- The character that a letter after a backslash stands for. -/
def escapeLetter? (c : Char) : Option Char :=
  if c = 'b' then some '\x08'
  else if c = 'f' then some '\x0c'
  else if c = 'n' then some '\n'
  else if c = 'r' then some '\r'
  else if c = 't' then some '\t'
  else if c = '\\' then some '\\'
  else if c = '"' then some '"'
  else none

/-- The character with a number, if there is one. -/
def charOfNumber? (n : Nat) : Option Char :=
  if n < 0xD800 ∨ (0xDFFF < n ∧ n < 0x110000) then some (Char.ofNat n) else none

/-- The character with the number that digits of base sixteen write. -/
def charOfHex? (digits : List Char) : Option Char :=
  (digits.mapM Json.hexValue?).bind fun values =>
    charOfNumber? (values.foldl (fun n d => n * 16 + d) 0)

/-- What stands after a backslash: a letter, or the number of a character in
four or eight digits. Nothing at all is a miss. -/
def escape : Scan Char
  | [] => .missed []
  | 'u' :: rest =>
    match charOfHex? (rest.take 4) with
    | some c => if 4 ≤ rest.length then .done c (rest.drop 4) else .failed rest
    | none => .failed rest
  | 'U' :: rest =>
    match charOfHex? (rest.take 8) with
    | some c => if 8 ≤ rest.length then .done c (rest.drop 8) else .failed rest
    | none => .failed rest
  | c :: rest =>
    match escapeLetter? c with
    | some e => .done e rest
    | none => .failed (afterByte (c :: rest))

-- ===================================================== strings on one line

/-- The rest of a string between double quotes. The fuel is the number of
characters left. -/
def basicBody : Nat → Scan (List Char)
  | 0, cs => .failed cs
  | fuel + 1, cs =>
    match cs with
    | [] => .failed cs
    | '"' :: rest => .done [] rest
    | '\\' :: rest =>
      match escape rest with
      | .done c rest =>
        match basicBody fuel rest with
        | .done body rest => .done (c :: body) rest
        | outcome => outcome
      | .missed _ => .failed cs
      | .failed stop => .failed stop
    | c :: rest =>
      if isBasic c then
        match basicBody fuel rest with
        | .done body rest => .done (c :: body) rest
        | outcome => outcome
      else .failed cs

/-- A string between double quotes. -/
def basicString : Scan (List Char)
  | '"' :: rest => basicBody (rest.length + 1) rest
  | cs => .missed cs

/-- A string between single quotes. -/
def literalString : Scan (List Char)
  | '\'' :: rest =>
    match rest.dropWhile isLiteral with
    | '\'' :: after => .done (rest.takeWhile isLiteral) after
    | stop => .failed stop
  | cs => .missed cs

-- ============================================= strings over several lines

/-- What follows a line end at the start, if one is there. -/
def afterLineEnd? : List Char → Option (List Char)
  | '\n' :: rest => some rest
  | '\r' :: '\n' :: rest => some rest
  | _ => none

/-- The text without a line end at its start. -/
def dropLineEnd (cs : List Char) : List Char :=
  (afterLineEnd? cs).getD cs

/-- The text from the first character on that is no gap and no line end. The
fuel is the number of characters left. -/
def dropGapsAndLineEnds : Nat → List Char → List Char
  | 0, cs => cs
  | fuel + 1, cs =>
    match afterLineEnd? cs with
    | some rest => dropGapsAndLineEnds fuel rest
    | none =>
      match cs with
      | c :: rest => if isGap c then dropGapsAndLineEnds fuel rest else cs
      | [] => cs

/-- What follows a backslash that ends its line: the gaps up to the line end are
dropped with everything blank after it. -/
def afterJoin? (cs : List Char) : Option (List Char) :=
  (afterLineEnd? (cs.dropWhile isGap)).map fun rest => dropGapsAndLineEnds rest.length rest

/-- How many quotes stand at the start, counted up to five. -/
def quoteRun (quote : Char) (cs : List Char) : Nat :=
  ((cs.take 5).takeWhile (· = quote)).length

/-- The rest of a string between threefold double quotes. Up to two quotes that
stand before the closing three belong to the string, as do one or two with
anything else after them. The fuel is the number of characters left. -/
def threefoldBasicBody : Nat → Scan (List Char)
  | 0, cs => .failed cs
  | fuel + 1, cs =>
    match cs with
    | [] => .failed cs
    | '"' :: _ =>
      let run := quoteRun '"' cs
      if 3 ≤ run then .done (List.replicate (run - 3) '"') (cs.drop run)
      else if cs.drop run = [] then .failed cs
      else
        match threefoldBasicBody fuel (cs.drop run) with
        | .done body rest => .done (List.replicate run '"' ++ body) rest
        | outcome => outcome
    | '\\' :: rest =>
      match afterJoin? rest with
      | some rest => threefoldBasicBody fuel rest
      | none =>
        match escape rest with
        | .done c rest =>
          match threefoldBasicBody fuel rest with
          | .done body rest => .done (c :: body) rest
          | outcome => outcome
        | .missed _ => .failed cs
        | .failed stop => .failed stop
    | c :: rest =>
      match afterLineEnd? cs with
      | some rest =>
        match threefoldBasicBody fuel rest with
        | .done body rest => .done ('\n' :: body) rest
        | outcome => outcome
      | none =>
        if isBasic c then
          match threefoldBasicBody fuel rest with
          | .done body rest => .done (c :: body) rest
          | outcome => outcome
        else .failed cs

/-- A string between threefold double quotes; a line end right after them is no
part of it. -/
def threefoldBasicString : Scan (List Char)
  | '"' :: '"' :: '"' :: rest => threefoldBasicBody (rest.length + 1) (dropLineEnd rest)
  | cs => .missed cs

/-- The rest of a string between threefold single quotes. The fuel is the number
of characters left. -/
def threefoldLiteralBody : Nat → Scan (List Char)
  | 0, cs => .failed cs
  | fuel + 1, cs =>
    match cs with
    | [] => .failed cs
    | '\'' :: _ =>
      let run := quoteRun '\'' cs
      if 3 ≤ run then .done (List.replicate (run - 3) '\'') (cs.drop run)
      else
        match cs.drop run with
        | [] => .failed cs
        | c :: rest =>
          if isLiteral c ∨ (afterLineEnd? (c :: rest)).isSome then
            match threefoldLiteralBody fuel (c :: rest) with
            | .done body rest => .done (List.replicate run '\'' ++ body) rest
            | outcome => outcome
          else .failed cs
    | c :: rest =>
      match afterLineEnd? cs with
      | some rest =>
        match threefoldLiteralBody fuel rest with
        | .done body rest => .done ('\n' :: body) rest
        | outcome => outcome
      | none =>
        if isLiteral c then
          match threefoldLiteralBody fuel rest with
          | .done body rest => .done (c :: body) rest
          | outcome => outcome
        else .failed cs

/-- A string between threefold single quotes; a line end right after them is no
part of it. -/
def threefoldLiteralString : Scan (List Char)
  | '\'' :: '\'' :: '\'' :: rest => threefoldLiteralBody (rest.length + 1) (dropLineEnd rest)
  | cs => .missed cs

/-- A string of any kind. -/
def anyString : Scan String := fun cs =>
  match (threefoldBasicString.orElse <| basicString.orElse <|
      threefoldLiteralString.orElse literalString) cs with
  | .done body rest => .done (String.ofList body) rest
  | .missed stop => .missed stop
  | .failed stop => .failed stop

-- =============================================================== writing

/-- The longest run of a character. -/
def longestRun (c : Char) (cs : List Char) : Nat :=
  (cs.foldl (fun (best, run) d =>
    if d = c then (max best (run + 1), run + 1) else (best, 0)) (0, 0)).1

/-- Whether a character cannot be written as it is between quotes of any kind,
not even over several lines. -/
def needsEscape (c : Char) : Bool :=
  isControl c && c != '\n'

/-- A digit of base sixteen, in capitals. -/
def capitalHexDigit (d : Nat) : Char :=
  if d < 10 then Char.ofNat ('0'.toNat + d) else Char.ofNat ('A'.toNat + (d - 10))

/-- A character other than a quote between double quotes. -/
def writtenChar (severalLines : Bool) (c : Char) : List Char :=
  if c = '\x08' then ['\\', 'b']
  else if c = '\t' then ['\\', 't']
  else if c = '\n' then (if severalLines then ['\n'] else ['\\', 'n'])
  else if c = '\x0c' then ['\\', 'f']
  else if c = '\r' then ['\\', 'r']
  else if c = '\\' then ['\\', '\\']
  else if isControl c then
    ['\\', 'u', '0', '0', capitalHexDigit (c.toNat / 16), capitalHexDigit (c.toNat % 16)]
  else [c]

/-- Characters between double quotes; of quotes in a row, the ones after the
first `spare` are escaped, and counting starts anew after each escape. -/
def writtenBody (severalLines : Bool) (spare : Nat) : Nat → List Char → List Char
  | _, [] => []
  | run, c :: rest =>
    if c = '"' then
      if run < spare then '"' :: writtenBody severalLines spare (run + 1) rest
      else '\\' :: '"' :: writtenBody severalLines spare 0 rest
    else writtenChar severalLines c ++ writtenBody severalLines spare 0 rest

/-- A string in quotes. -/
def written (s : String) : List Char :=
  let cs := s.toList
  let doubles := longestRun '"' cs
  let singles := longestRun '\'' cs
  let lineEnds := cs.contains '\n'
  let backslash := cs.contains '\\'
  let control := cs.any needsEscape
  let opening := if lineEnds then ['\n'] else []
  let threeDoubles := ['"', '"', '"']
  let threeSingles := ['\'', '\'', '\'']
  let onOneLine := '"' :: writtenBody false 0 0 cs ++ ['"']
  let onSeveralLines := threeDoubles ++ opening ++ writtenBody true 2 0 cs ++ threeDoubles
  if !control && !backslash && doubles = 0 && !lineEnds then onOneLine
  else if !control && singles = 0 && !lineEnds then '\'' :: cs ++ ['\'']
  else if !control && !backslash && doubles ≤ 2 then onSeveralLines
  else if !control && singles ≤ 2 then threeSingles ++ opening ++ cs ++ threeSingles
  else if lineEnds then onSeveralLines
  else onOneLine

end ImportResolution.Toml
