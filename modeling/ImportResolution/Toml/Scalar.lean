/-
Numbers and dates of a settings document. No setting is a number or a date, so
only their form is read: which texts are one, and where a text that starts like
one goes wrong. Integers have to fit sixty-four bits and a number may not be
beyond the doubles.
-/
import ImportResolution.Toml.Scan
import ImportResolution.Decimal.Range
import ImportResolution.Json.Document

namespace ImportResolution.Toml

open Scan

-- ============================================================== digits

/-- The digits that may start a number of several digits. -/
def isLeadingDigit (c : Char) : Bool :=
  '1' ≤ c && c ≤ '9'

/-- The digits of base sixteen. -/
def isHexDigit (c : Char) : Bool :=
  (Json.hexValue? c).isSome

/-- The digits of base eight. -/
def isOctalDigit (c : Char) : Bool :=
  '0' ≤ c && c ≤ '7'

/-- The digits of base two. -/
def isBinaryDigit (c : Char) : Bool :=
  c = '0' || c = '1'

/-- A sign. -/
def isSign (c : Char) : Bool :=
  c = '+' || c = '-'

/-- Further digits of a class; an underscore may stand between two digits. -/
def moreDigits (p : Char → Bool) : Scan Unit := do
  let _ ← many <| (char p).orElse do
    let _ ← char (· = '_')
    commit (char p)

/-- Digits of a class. -/
def someDigits (p : Char → Bool) : Scan Unit := do
  let _ ← char p
  moreDigits p

-- ============================================================= integers

/-- A whole number in base ten, without needless zeros in front. -/
def decimalInteger : Scan Unit := do
  let _ ← maybe (char isSign)
  orElse
    (do let _ ← char isLeadingDigit; moreDigits Decimal.isDigit)
    (do let _ ← char Decimal.isDigit)

/-- Whether the text of a whole number in base ten fits sixty-four bits. -/
def fitsWord (text : List Char) : Bool :=
  let digits := text.filter Decimal.isDigit
  let size := Decimal.ofDigits digits
  if text.head? = some '-' then size ≤ Nat.pow 2 63 else size < Nat.pow 2 63

/-- Whether digits of a base fit sixty-four bits. -/
def digitsFitWord (base : Nat) (text : List Char) : Bool :=
  (text.filterMap Json.hexValue?).foldl (fun n d => n * base + d) 0 < Nat.pow 2 63

/-- A whole number in another base, after the zero and the letter that tell the
base. -/
def basedInteger (base : Nat) (letter : Char) (p : Char → Bool) : Scan Unit := fun cs =>
  match (do word ['0', letter]; taken (someDigits p)) cs with
  | .done text rest => if digitsFitWord base text then .done () rest else .failed cs
  | .missed stop => .failed stop
  | .failed stop => .failed stop

/-- A whole number in any base. -/
def integer : Scan Unit := fun cs =>
  match cs with
  | '0' :: 'x' :: _ => basedInteger 16 'x' isHexDigit cs
  | '0' :: 'o' :: _ => basedInteger 8 'o' isOctalDigit cs
  | '0' :: 'b' :: _ => basedInteger 2 'b' isBinaryDigit cs
  | _ =>
    match taken decimalInteger cs with
    | .done text rest => if fitsWord text then .done () rest else .failed cs
    | .missed stop => .missed stop
    | .failed stop => .failed stop

-- =============================================================== floats

/-- The exponent of a number. -/
def exponent : Scan Unit := do
  let _ ← char fun c => c = 'e' || c = 'E'
  let _ ← maybe (char isSign)
  commit (someDigits Decimal.isDigit)

/-- The fraction of a number. -/
def fraction : Scan Unit := do
  let _ ← char (· = '.')
  commit (someDigits Decimal.isDigit)

/-- A number with a fraction, an exponent, or both. -/
def finiteFloat : Scan Unit := do
  decimalInteger
  orElse exponent (do fraction; let _ ← maybe exponent)

/-- Whether the text of a number is beyond the doubles on the positive side. -/
def isBeyondDoubles (text : List Char) : Bool :=
  let text := text.filter (· ≠ '_')
  let (negative, text) :=
    match text with
    | '-' :: rest => (true, rest)
    | '+' :: rest => (false, rest)
    | _ => (false, text)
  let whole := text.takeWhile Decimal.isDigit
  let text := text.dropWhile Decimal.isDigit
  let (fraction, text) :=
    match text with
    | '.' :: rest => (rest.takeWhile Decimal.isDigit, rest.dropWhile Decimal.isDigit)
    | _ => ([], text)
  let power : Int :=
    match text with
    | _ :: '-' :: rest => -(Decimal.ofDigits rest)
    | _ :: '+' :: rest => Decimal.ofDigits rest
    | _ :: rest => Decimal.ofDigits rest
    | [] => 0
  !negative && Decimal.exceedsDoubles whole fraction power

/-- Infinity, or what is no number. -/
def wordFloat : Scan Unit :=
  orElse (word ['i', 'n', 'f']) (word ['n', 'a', 'n'])

/-- A number that is not whole. -/
def float : Scan Unit :=
  orElse
    (fun cs =>
      match taken finiteFloat cs with
      | .done text rest => if isBeyondDoubles text then .failed cs else .done () rest
      | .missed stop => .missed stop
      | .failed stop => .failed stop)
    (do let _ ← maybe (char isSign); wordFloat)

-- ================================================================ dates

/-- A number of two digits within bounds. -/
def twoDigits (least greatest : Nat) : Scan Nat :=
  which (do
    let digits ← exactly 2 Decimal.isDigit
    return Decimal.ofDigits digits) fun n => least ≤ n && n ≤ greatest

/-- The days of a month. -/
def daysIn (year month : Nat) : Nat :=
  if month = 2 then
    if year % 4 = 0 ∧ (year % 100 ≠ 0 ∨ year % 400 = 0) then 29 else 28
  else if month = 4 ∨ month = 6 ∨ month = 9 ∨ month = 11 then 30
  else 31

/-- A date. -/
def date : Scan Unit := do
  let digits ← exactly 4 Decimal.isDigit
  let year := Decimal.ofDigits digits
  word ['-']
  let month ← commit (twoDigits 1 12)
  commit (word ['-'])
  let _ ← commit (which (twoDigits 1 31) (· ≤ daysIn year month))

/-- A time of day, to the second or finer. -/
def timeOfDay : Scan Unit := do
  let _ ← twoDigits 0 23
  word [':']
  let _ ← commit (twoDigits 0 59)
  commit (word [':'])
  let _ ← commit (twoDigits 0 60)
  let _ ← maybe do
    word ['.']
    skipSome Decimal.isDigit

/-- The distance from universal time. -/
def timeOffset : Scan Unit :=
  orElse
    (do let _ ← char fun c => c = 'Z' || c = 'z')
    (do
      let _ ← char isSign
      let _ ← commit (twoDigits 0 23)
      commit (word [':'])
      let _ ← commit (twoDigits 0 59))

/-- A date, a time, or both. -/
def dateTime : Scan Unit :=
  orElse
    (do
      date
      let _ ← maybe do
        let _ ← char fun c => c = 'T' || c = 't' || c = ' '
        timeOfDay
        let _ ← maybe timeOffset)
    timeOfDay

/-- A number of any form. -/
def number : Scan Unit :=
  float.orElse integer

end ImportResolution.Toml
