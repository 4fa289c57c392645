/-
JSON5 documents: JSON with comments, trailing commas, bare keys, single quotes
and a freer way to write numbers. As in JSON, a leaf may stand for nothing.

An integer without an exponent has to fit sixty-four bits with its sign; one of
base sixteen has no sign and has to fit thirty-two. What is written like a number
and is none of these, or is beyond the doubles, stands for nothing.
-/
import ImportResolution.Json.Document
import ImportResolution.Decimal.Range
import ImportResolution.Text.Letter

namespace ImportResolution.Json5

open Json (Document Mark Number)

-- ===================================================== blanks and comments

/-- Characters that end a line. -/
def isLineEnd (c : Char) : Bool :=
  c = '\n' || c = '\r' || c = '\u2028' || c = '\u2029'

/-- Blanks between the tokens, the byte order mark among them. -/
def isSpace (c : Char) : Bool :=
  let n := c.toNat
  isLineEnd c || c = '\t' || n = 0x0B || n = 0x0C || c = ' ' || n = 0xA0 || n = 0xFEFF ||
    n = 0x1680 || (0x2000 ≤ n && n ≤ 0x200A) || n = 0x202F || n = 0x205F || n = 0x3000

mutual

/-- The text from the next token on. A block comment that is never closed is no
comment and is left standing. -/
def skipSpace : List Char → List Char
  | '/' :: '/' :: rest => skipLine rest
  | '/' :: '*' :: rest => skipBlock ('/' :: '*' :: rest) rest
  | c :: rest => if isSpace c then skipSpace rest else c :: rest
  | [] => []

/-- The text from the next token after a comment up to the end of the line. -/
def skipLine : List Char → List Char
  | c :: rest => if isLineEnd c then skipSpace rest else skipLine rest
  | [] => []

/-- The text from the next token after a comment up to its closing mark; the
text from `start` on if it has none. -/
def skipBlock (start : List Char) : List Char → List Char
  | '*' :: '/' :: rest => skipSpace rest
  | _ :: rest => skipBlock start rest
  | [] => start

end

-- ================================================================== texts

/-- The character that a letter after a backslash stands for. -/
def letterEscape (c : Char) : Char :=
  if c = 'b' then '\x08'
  else if c = 'f' then '\x0c'
  else if c = 'n' then '\n'
  else if c = 'r' then '\r'
  else if c = 't' then '\t'
  else if c = 'v' then '\x0b'
  else c

/-- The mark of a backslash before `c`; none where digits would have to follow
or must not. -/
def escape? (c : Char) : Option Mark :=
  if c = 'x' ∨ c = 'u' ∨ ('1' ≤ c ∧ c ≤ '9') then none
  else if c = '0' then some (.plain '\x00')
  else some (.plain (letterEscape c))

/-- The marks up to the closing quote, and what follows it. A backslash at the
end of a line goes on with the next line. -/
def marks? (quote : Char) : List Char → Option (List Mark × List Char)
  | [] => none
  | '\\' :: 'u' :: a :: b :: c :: d :: rest =>
    match Json.hexUnit? a b c d with
    | some n => (marks? quote rest).map fun p => (.unit n :: p.1, p.2)
    | none => none
  | '\\' :: 'x' :: a :: b :: rest =>
    match Json.hexUnit? '0' '0' a b with
    | some n => (marks? quote rest).map fun p => (.plain (Char.ofNat n) :: p.1, p.2)
    | none => none
  | '\\' :: '\r' :: '\n' :: rest => marks? quote rest
  | '\\' :: c :: rest =>
    if isLineEnd c then marks? quote rest
    else
      match escape? c with
      | some mark => (marks? quote rest).map fun p => (mark :: p.1, p.2)
      | none => none
  | c :: rest =>
    if c = quote then some ([], rest)
    else if c = '\\' ∨ isLineEnd c then none
    else (marks? quote rest).map fun p => (.plain c :: p.1, p.2)

/-- The text that some marks make up; none if one of them is half of a pair. -/
def textOf? (marks : List Mark) : Option String :=
  (Json.charsOfMarks? marks).map String.ofList

/-- The text after an opening quote, and what follows its closing one. -/
def quotedText? (quote : Char) (cs : List Char) : Option (Option String × List Char) :=
  (marks? quote cs).map fun p => (textOf? p.1, p.2)

-- =================================================================== keys

/-- Whether a bare key may start with the character. -/
def startsKey (c : Char) : Bool :=
  c = '$' || c = '_' || Text.isLetter c

/-- Whether a bare key may go on with the character. -/
def continuesKey (c : Char) : Bool :=
  startsKey c || Text.isLetterFollower c || c = '\u200C' || c = '\u200D'

/-- The marks of a bare key from its next character on, and what follows it. -/
def keyMarks : List Char → List Mark × List Char
  | '\\' :: 'u' :: a :: b :: c :: d :: rest =>
    match Json.hexUnit? a b c d with
    | some n => let p := keyMarks rest; (.unit n :: p.1, p.2)
    | none => ([], '\\' :: 'u' :: a :: b :: c :: d :: rest)
  | c :: rest =>
    if continuesKey c then let p := keyMarks rest; (.plain c :: p.1, p.2)
    else ([], c :: rest)
  | [] => ([], [])

/-- The key at the start of a text, quoted or bare, and what follows it. -/
def key? : List Char → Option (Option String × List Char)
  | [] => none
  | c :: rest =>
    if c = '"' ∨ c = '\'' then quotedText? c rest
    else if startsKey c ∨ c = '\\' then
      match keyMarks (c :: rest) with
      | ([], _) => none
      | (marks, rest) => some (textOf? marks, rest)
    else none

-- ================================================================ numbers

/-- The number written by an integer with its sign. -/
def integer? (negative : Bool) (digits : List Char) : Option Number :=
  let n := Decimal.ofDigits digits
  if negative then if n ≤ Nat.pow 2 63 then some (.integer (-n)) else none
  else if n < Nat.pow 2 63 then some (.integer n) else none

/-- The integer written in base sixteen. -/
def ofHexDigits (cs : List Char) : Nat :=
  cs.foldl (fun n c => n * 16 + (Json.hexValue? c).getD 0) 0

/-- The number written by digits of base sixteen after their mark, and what
follows them. -/
def hexNumber? (signed : Bool) (cs : List Char) : Option (Option Number × List Char) :=
  let isHex := fun c => (Json.hexValue? c).isSome
  let n := ofHexDigits (cs.takeWhile isHex)
  if cs.takeWhile isHex = [] then none
  else some (if signed ∨ Nat.pow 2 32 ≤ n then none else some (.integer n), cs.dropWhile isHex)

/-- The exponent at the start, and what follows it; without a mark and a digit
there is none. -/
def exponent (cs : List Char) : Option Int × List Char :=
  match cs with
  | [] => (none, [])
  | c :: rest =>
    if c = 'e' ∨ c = 'E' then
      match Json.Numeral.power? rest with
      | some ((negative, digits), after) =>
        let n : Int := Decimal.ofDigits digits
        (some (if negative then -n else n), after)
      | none => (none, cs)
    else (none, cs)

/-- The least power of ten that is told apart: far below every double, whatever
digits stand in front of it. -/
def leastScale (digits : List Char) : Int := -400 - digits.length

/-- The double nearest to a decimal that is not beyond the doubles. -/
def double? (negative : Bool) (whole fraction : List Char) (exponent : Int) : Option Number :=
  if Decimal.exceedsDoubles whole fraction exponent then none
  else
    let digits := whole ++ fraction
    let scale := max (leastScale digits) (exponent - fraction.length)
    let n := Decimal.ofDigits digits
    let f : Float :=
      if n = 0 then 0.0 else Float.ofScientific n (scale < 0) scale.natAbs
    some (.double (if negative then -f else f).toBits)

/-- The integer or fraction at the start, and what follows it. A point needs a
digit before or after it, and a zero in front stands alone. -/
def decimal? (negative : Bool) (cs : List Char) : Option (Option Number × List Char) :=
  let (whole, afterWhole) :=
    match cs with
    | '0' :: rest => (['0'], rest)
    | _ => Json.spanDigits cs
  match afterWhole with
  | '.' :: rest =>
    let (fraction, rest) := Json.spanDigits rest
    if whole = [] ∧ fraction = [] then none
    else
      let (power, rest) := exponent rest
      some (double? negative whole fraction (power.getD 0), rest)
  | _ =>
    if whole = [] then none
    else
      match exponent afterWhole with
      | (none, rest) => some (integer? negative whole, rest)
      | (some power, rest) => some (double? negative whole [] power, rest)

/-- The word for a number beyond all others. -/
def infinityWord : List Char := ['I', 'n', 'f', 'i', 'n', 'i', 't', 'y']

/-- The word for what is no number. -/
def nanWord : List Char := ['N', 'a', 'N']

/-- The number that a word for one stands for; after a plus it stands for none. -/
def wordNumber? (plus : Bool) (value : Float) : Option Number :=
  if plus then none else some (.double value.toBits)

/-- The number at the start, and what follows it. -/
def number? (cs : List Char) : Option (Option Number × List Char) :=
  let (plus, negative, body) :=
    match cs with
    | '+' :: rest => (true, false, rest)
    | '-' :: rest => (false, true, rest)
    | _ => (false, false, cs)
  match Text.afterStart? infinityWord body, Text.afterStart? nanWord body with
  | some rest, _ => some (wordNumber? plus (if negative then -1.0 / 0.0 else 1.0 / 0.0), rest)
  | _, some rest => some (wordNumber? plus (0.0 / 0.0), rest)
  | none, none =>
    match body with
    | '0' :: 'x' :: rest => hexNumber? (plus || negative) rest
    | '0' :: 'X' :: rest => hexNumber? (plus || negative) rest
    | _ => decimal? negative body

-- ============================================================ the reader

/-- A word that stands for a value. -/
def word? (cs : List Char) : Option (Document × List Char) :=
  match Text.afterStart? ['n', 'u', 'l', 'l'] cs, Text.afterStart? ['t', 'r', 'u', 'e'] cs,
    Text.afterStart? ['f', 'a', 'l', 's', 'e'] cs with
  | some rest, _, _ => some (.null, rest)
  | _, some rest, _ => some (.bool true, rest)
  | _, _, some rest => some (.bool false, rest)
  | none, none, none => none

mutual

/-- The document at the start of a text and what follows it. Each nested
document takes one unit of fuel, and none is nested deeper than its text is
long. -/
def value? : Nat → List Char → Option (Document × List Char)
  | 0, _ => none
  | fuel + 1, cs =>
    match skipSpace cs with
    | [] => none
    | c :: rest =>
      if c = '"' ∨ c = '\'' then (quotedText? c rest).map fun p => (.text p.1, p.2)
      else if c = '[' then (items? fuel rest).map fun p => (.array p.1, p.2)
      else if c = '\x7b' then (members? fuel rest).map fun p => (.object p.1, p.2)
      else
        match word? (c :: rest) with
        | some p => some p
        | none => (number? (c :: rest)).map fun p => (.number p.1, p.2)

/-- The items of an array from the next one on, and what follows its end; a
comma may stand before the end. -/
def items? : Nat → List Char → Option (List Document × List Char)
  | 0, _ => none
  | fuel + 1, cs =>
    match skipSpace cs with
    | ']' :: after => some ([], after)
    | _ =>
      match value? fuel cs with
      | none => none
      | some (item, rest) =>
        match skipSpace rest with
        | ',' :: more => (items? fuel more).map fun p => (item :: p.1, p.2)
        | ']' :: after => some ([item], after)
        | _ => none

/-- The members of an object from the next one on, and what follows its end; a
comma may stand before the end. -/
def members? : Nat → List Char → Option (List (Option String × Document) × List Char)
  | 0, _ => none
  | fuel + 1, cs =>
    match skipSpace cs with
    | '\x7d' :: after => some ([], after)
    | start =>
      match key? start with
      | none => none
      | some (key, rest) =>
        match skipSpace rest with
        | ':' :: rest =>
          match value? fuel rest with
          | none => none
          | some (value, rest) =>
            match skipSpace rest with
            | ',' :: more =>
              (members? fuel more).map fun p => ((key, value) :: p.1, p.2)
            | '\x7d' :: after => some ([(key, value)], after)
            | _ => none
        | _ => none

end

/-- The document that makes up a whole text. -/
def ofText? (s : String) : Option Document :=
  let cs := s.toList
  match value? (2 * cs.length + 1) cs with
  | some (document, rest) => if skipSpace rest = [] then some document else none
  | none => none

end ImportResolution.Json5
