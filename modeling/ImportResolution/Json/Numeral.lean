/-
Numbers as they are written in JSON, and what they mean. An integer that fits
sixty-four bits is exact. Every other number becomes a double from its first
significant digits, as many as fit an unsigned sixty-four bit word, and a power
of ten applied in steps of at most `10³⁰⁸`; a number beyond the doubles has no
meaning, one below them is zero.
-/
import ImportResolution.Json.Value

namespace ImportResolution.Json

/-- A number as written. -/
structure Numeral where
  negative : Bool
  /-- The digits before the point, at least one. -/
  whole : List Char
  /-- The digits after the point; none when there is no point. -/
  fraction : List Char
  /-- The sign and digits of the exponent, if there is one. -/
  exponent : Option (Bool × List Char)
deriving DecidableEq, Repr

-- =============================================================== reading

/-- The digits at the start, and what follows them. -/
def spanDigits (cs : List Char) : List Char × List Char :=
  (cs.takeWhile Decimal.isDigit, cs.dropWhile Decimal.isDigit)

/-- The fraction at the start, if a point is there. -/
def Numeral.fraction? : List Char → Option (List Char × List Char)
  | '.' :: rest =>
    match spanDigits rest with
    | ([], _) => none
    | (digits, rest) => some (digits, rest)
  | cs => some ([], cs)

/-- The exponent after its mark: an optional sign and at least one digit. -/
def Numeral.power? (cs : List Char) : Option ((Bool × List Char) × List Char) :=
  let (negative, cs) :=
    match cs with
    | '+' :: rest => (false, rest)
    | '-' :: rest => (true, rest)
    | _ => (false, cs)
  match spanDigits cs with
  | ([], _) => none
  | (digits, rest) => some ((negative, digits), rest)

/-- The exponent at the start, if a mark is there. -/
def Numeral.exponent? : List Char → Option (Option (Bool × List Char) × List Char)
  | 'e' :: rest => (Numeral.power? rest).map fun p => (some p.1, p.2)
  | 'E' :: rest => (Numeral.power? rest).map fun p => (some p.1, p.2)
  | cs => some (none, cs)

/-- The number at the start and what follows it: an optional minus, digits
without a needless zero in front, a fraction, an exponent. -/
def Numeral.read? (cs : List Char) : Option (Numeral × List Char) := do
  let (negative, cs) :=
    match cs with
    | '-' :: rest => (true, rest)
    | _ => (false, cs)
  let (whole, cs) := spanDigits cs
  match whole with
  | [] => none
  | '0' :: _ :: _ => none
  | _ =>
    let (fraction, cs) ← Numeral.fraction? cs
    let (exponent, cs) ← Numeral.exponent? cs
    some (⟨negative, whole, fraction, exponent⟩, cs)

-- =============================================================== meaning

/-- The greatest unsigned number of sixty-four bits. -/
def maxWord : Nat := Nat.pow 2 64 - 1

/-- The greatest exponent that is taken into account. -/
def maxExponent : Nat := Nat.pow 2 31 - 1

/-- The digits that fit a word, and how many are left over. -/
def leadingWord (significand : Nat) : List Char → Nat × Nat
  | [] => (significand, 0)
  | c :: rest =>
    let next := significand * 10 + Decimal.digitValue c
    if next ≤ maxWord then leadingWord next rest else (significand, (c :: rest).length)

/-- `f · 10 ^ exponent` in steps of at most `10³⁰⁸`; there is none beyond the
doubles. -/
def scaleDouble (f : Float) (exponent : Int) : Option Float :=
  if exponent.natAbs ≤ 308 then
    let power := Float.ofScientific 1 false exponent.natAbs
    if 0 ≤ exponent then
      let scaled := f * power
      if scaled.isInf then none else some scaled
    else some (f / power)
  else if f == 0.0 then some f
  else if 0 ≤ exponent then none
  else scaleDouble (f / Float.ofScientific 1 false 308) (exponent + 308)
termination_by exponent.natAbs
decreasing_by omega

/-- The double with a sign, from its significand and power of ten. -/
def signedDouble? (negative : Bool) (significand : Nat) (exponent : Int) : Option Number :=
  (scaleDouble significand.toUInt64.toFloat exponent).map fun f =>
    .double (if negative then -f else f).toBits

/-- An exponent kept within thirty-two bits. -/
def clampExponent (e : Int) : Int :=
  if e < -2147483648 then -2147483648 else if 2147483647 < e then 2147483647 else e

/-- The number a numeral means, if it is one that can be held. -/
def Numeral.value? (n : Numeral) : Option Number :=
  let (word, spare) := leadingWord 0 n.whole
  if spare = 0 ∧ n.fraction = [] ∧ n.exponent = none then
    if n.negative = false then some (.integer word)
    else if 0 < word ∧ word ≤ Nat.pow 2 63 then some (.integer (-word))
    else signedDouble? true word 0
  else
    let (significand, unused) := leadingWord word n.fraction
    let scale : Int := spare - (n.fraction.length - unused : Nat)
    match n.exponent with
    | none => signedDouble? n.negative significand scale
    | some (downwards, digits) =>
      let power := Decimal.ofDigits digits
      if maxExponent < power then
        if significand ≠ 0 ∧ downwards = false then none
        else some (.double (if n.negative then -0.0 else 0.0 : Float).toBits)
      else
        signedDouble? n.negative significand
          (clampExponent (if downwards then scale - power else scale + power))

end ImportResolution.Json
