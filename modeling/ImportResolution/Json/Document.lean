/-
JSON documents as they are written. A document keeps repeated members and marks
the leaves that stand for nothing: a number beyond the doubles, or a text with
half of a surrogate pair. Such a leaf spoils only the value it is part of, so a
field that nobody reads may hold one.
-/
import ImportResolution.Json.Numeral
import ImportResolution.Text.Segments

namespace ImportResolution.Json

/-- A document. -/
inductive Document where
  | null
  | bool (value : Bool)
  /-- A number; none beyond the doubles. -/
  | number (value : Option Number)
  /-- A text; none if an escape is half of a pair. -/
  | text (value : Option String)
  | array (items : List Document)
  /-- The members as written, repeated keys included. -/
  | object (members : List (Option String × Document))
deriving Repr, Inhabited

-- ============================================================== leaves

/-- Blanks between the tokens. -/
def isSpace (c : Char) : Bool :=
  c = ' ' || c = '\t' || c = '\n' || c = '\r'

/-- The text from the next token on. -/
def skipSpace (cs : List Char) : List Char :=
  cs.dropWhile isSpace

/-- The value of a digit of base sixteen in either case. -/
def hexValue? (c : Char) : Option Nat :=
  if '0' ≤ c ∧ c ≤ '9' then some (c.toNat - '0'.toNat)
  else if 'a' ≤ c ∧ c ≤ 'f' then some (c.toNat - 'a'.toNat + 10)
  else if 'A' ≤ c ∧ c ≤ 'F' then some (c.toNat - 'A'.toNat + 10)
  else none

/-- The unit written by four digits of base sixteen. -/
def hexUnit? (a b c d : Char) : Option Nat := do
  let a ← hexValue? a
  let b ← hexValue? b
  let c ← hexValue? c
  let d ← hexValue? d
  some (((a * 16 + b) * 16 + c) * 16 + d)

/-- One mark inside quotes: a character, or an escaped unit of sixteen bits. -/
inductive Mark where
  | plain (c : Char)
  | unit (n : Nat)
deriving DecidableEq, Repr

/-- The character named by a letter after a backslash. -/
def letterEscape? (c : Char) : Option Char :=
  if c = '"' then some '"'
  else if c = '\\' then some '\\'
  else if c = '/' then some '/'
  else if c = 'b' then some '\x08'
  else if c = 'f' then some '\x0c'
  else if c = 'n' then some '\n'
  else if c = 'r' then some '\r'
  else if c = 't' then some '\t'
  else none

/-- The marks up to the closing quote, and what follows it. -/
def marks? : List Char → Option (List Mark × List Char)
  | [] => none
  | '"' :: rest => some ([], rest)
  | '\\' :: 'u' :: a :: b :: c :: d :: rest =>
    match hexUnit? a b c d with
    | some n => (marks? rest).map fun p => (.unit n :: p.1, p.2)
    | none => none
  | '\\' :: c :: rest =>
    match letterEscape? c with
    | some e => (marks? rest).map fun p => (.plain e :: p.1, p.2)
    | none => none
  | c :: rest =>
    if c.toNat < 32 ∨ c = '\\' then none
    else (marks? rest).map fun p => (.plain c :: p.1, p.2)

/-- Whether a unit is the first half of a pair. -/
def isHigh (n : Nat) : Bool :=
  0xD800 ≤ n && n < 0xDC00

/-- Whether a unit is the second half of a pair. -/
def isLow (n : Nat) : Bool :=
  0xDC00 ≤ n && n < 0xE000

/-- The characters of the marks: two halves of a pair are one character, and a
half alone is none. -/
def charsOfMarks? : List Mark → Option (List Char)
  | [] => some []
  | .plain c :: rest => (charsOfMarks? rest).map (c :: ·)
  | .unit n :: .unit m :: rest =>
    if isHigh n then
      if isLow m then
        (charsOfMarks? rest).map (Char.ofNat (0x10000 + (n - 0xD800) * 0x400 + (m - 0xDC00)) :: ·)
      else none
    else if isLow n then none
    else (charsOfMarks? (.unit m :: rest)).map (Char.ofNat n :: ·)
  | .unit n :: rest =>
    if isHigh n || isLow n then none
    else (charsOfMarks? rest).map (Char.ofNat n :: ·)

/-- The text after an opening quote, and what follows its closing one. -/
def quotedText? (cs : List Char) : Option (Option String × List Char) :=
  (marks? cs).map fun p => ((charsOfMarks? p.1).map String.ofList, p.2)

-- ============================================================ the reader

/-- What follows `word` in `cs`. -/
def afterWord? (word cs : List Char) : Option (List Char) :=
  Text.afterStart? word cs

mutual

/-- The document at the start of a text and what follows it. Each nested
document takes one unit of fuel, and none is nested deeper than its text is
long. -/
def Document.value? : Nat → List Char → Option (Document × List Char)
  | 0, _ => none
  | fuel + 1, cs =>
    match skipSpace cs with
    | [] => none
    | c :: rest =>
      if c = '"' then (quotedText? rest).map fun p => (.text p.1, p.2)
      else if c = '[' then
        match skipSpace rest with
        | ']' :: after => some (.array [], after)
        | _ => (Document.items? fuel rest).map fun p => (.array p.1, p.2)
      else if c = '\x7b' then
        match skipSpace rest with
        | '\x7d' :: after => some (.object [], after)
        | _ => (Document.members? fuel rest).map fun p => (.object p.1, p.2)
      else if c = 'n' then (afterWord? ['u', 'l', 'l'] rest).map fun after => (.null, after)
      else if c = 't' then (afterWord? ['r', 'u', 'e'] rest).map fun after => (.bool true, after)
      else if c = 'f' then
        (afterWord? ['a', 'l', 's', 'e'] rest).map fun after => (.bool false, after)
      else (Numeral.read? (c :: rest)).map fun p => (.number p.1.value?, p.2)

/-- The items of an array from the next one on, and what follows its end. -/
def Document.items? : Nat → List Char → Option (List Document × List Char)
  | 0, _ => none
  | fuel + 1, cs =>
    match Document.value? fuel cs with
    | none => none
    | some (item, rest) =>
      match skipSpace rest with
      | ',' :: more => (Document.items? fuel more).map fun p => (item :: p.1, p.2)
      | ']' :: after => some ([item], after)
      | _ => none

/-- The members of an object from the next one on, and what follows its end. -/
def Document.members? : Nat → List Char → Option (List (Option String × Document) × List Char)
  | 0, _ => none
  | fuel + 1, cs =>
    match skipSpace cs with
    | '"' :: rest =>
      match quotedText? rest with
      | none => none
      | some (key, rest) =>
        match skipSpace rest with
        | ':' :: rest =>
          match Document.value? fuel rest with
          | none => none
          | some (value, rest) =>
            match skipSpace rest with
            | ',' :: more => (Document.members? fuel more).map fun p => ((key, value) :: p.1, p.2)
            | '\x7d' :: after => some ([(key, value)], after)
            | _ => none
        | _ => none
    | _ => none

end

/-- The document that makes up a whole text. -/
def Document.ofText? (s : String) : Option Document :=
  let cs := s.toList
  match Document.value? (2 * cs.length + 1) cs with
  | some (document, rest) => if skipSpace rest = [] then some document else none
  | none => none

end ImportResolution.Json
