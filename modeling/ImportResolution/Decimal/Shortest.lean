/-
The shortest decimal that reads back as a given double. The reals that round to
a double form an interval around it; on the grids with 1, 2, … 17 digits the
two neighbours of the double are tested against that interval in exact
arithmetic, and the first grid with a hit wins. Where both neighbours hit, the
nearer one is taken, and on an exact tie the even one.
-/
import ImportResolution.Decimal.Digits

namespace ImportResolution.Decimal

/-- A positive decimal: `digits · 10 ^ exponent`. -/
structure Scientific where
  digits : Nat
  exponent : Int
deriving DecidableEq, Repr

/-- A positive finite double, `mantissa · 2 ^ exponent`, and whether the gap
below it is half the gap above it. -/
structure Binary where
  mantissa : Nat
  exponent : Int
  narrowBelow : Bool
deriving DecidableEq, Repr

/-- The mantissa and exponent held in the bits of a double, its sign left out. -/
def Binary.ofBits (bits : UInt64) : Binary :=
  let fraction : Nat := bits.toNat % Nat.pow 2 52
  let scale : Nat := bits.toNat / Nat.pow 2 52 % Nat.pow 2 11
  if scale = 0 then ⟨fraction, -1074, false⟩
  else ⟨Nat.pow 2 52 + fraction, (scale : Int) - 1075, fraction == 0 && 1 < scale⟩

/-- A positive rational as a pair of naturals. -/
structure Ratio where
  num : Nat
  den : Nat

/-- `n · base ^ exponent` for a positive base. -/
def Ratio.scaled (n base : Nat) (exponent : Int) : Ratio :=
  if 0 ≤ exponent then ⟨n * Nat.pow base exponent.toNat, 1⟩ else ⟨n, Nat.pow base (-exponent).toNat⟩

/-- The exponent of the leading digit: `10 ^ e ≤ v < 10 ^ (e + 1)`. -/
def leadingExponent (v : Ratio) : Int :=
  ((toDigits (v.num * Nat.pow 10 400 / v.den)).length : Int) - 401

/-- Whether `c · 10 ^ k` rounds to the double. The ends of the interval count
when the mantissa is even. -/
def Binary.admits (b : Binary) (c : Nat) (k : Int) : Bool :=
  -- everything is compared in quarters of the gap above the double
  let point := Ratio.scaled (4 * c) 10 k
  let unit := Ratio.scaled 1 2 b.exponent
  let value := point.num * unit.den
  let low := (4 * b.mantissa - if b.narrowBelow then 1 else 2) * unit.num * point.den
  let high := (4 * b.mantissa + 2) * unit.num * point.den
  if b.mantissa % 2 = 0 then low ≤ value && value ≤ high else low < value && value < high

/-- The hit on the grid `10 ^ k`, if one of the double's two neighbours there
rounds to it. -/
def Binary.onGrid? (b : Binary) (k : Int) : Option Nat :=
  let unit := Ratio.scaled b.mantissa 2 b.exponent
  let step := Ratio.scaled 1 10 k
  let num := unit.num * step.den
  let den := unit.den * step.num
  let below := num / den
  let twice := 2 * (num % den)
  match b.admits below k, b.admits (below + 1) k with
  | true, true =>
    if twice < den then some below
    else if den < twice then some (below + 1)
    else if below % 2 = 0 then some below else some (below + 1)
  | true, false => some below
  | false, true => some (below + 1)
  | false, false => none

/-- The first hit among the grids with `digits`, `digits + 1`, … digits. -/
def Binary.firstHit (b : Binary) (lead : Int) : (tries digits : Nat) → Scientific
  | 0, digits => ⟨0, lead + 1 - digits⟩
  | tries + 1, digits =>
    let k := lead + 1 - digits
    match b.onGrid? k with
    | some c => ⟨c, k⟩
    | none => b.firstHit lead tries (digits + 1)

/-- The shortest decimal that rounds to a positive double; seventeen digits
always suffice. -/
def Binary.shortest (b : Binary) : Scientific :=
  b.firstHit (leadingExponent (.scaled b.mantissa 2 b.exponent)) 17 1

-- ========================================================= written form

/-- How a double is laid out as text. -/
structure Layout where
  /-- The least exponent of a leading digit that is written positionally. -/
  least : Int
  /-- The greatest exponent of a leading digit that is written positionally. -/
  greatest : Int
  /-- What follows a whole number written positionally. -/
  wholeEnding : List Char
  /-- The mark before the exponent. -/
  mark : Char
  /-- What stands before an exponent that is not negative. -/
  plus : List Char

/-- Zeros at the end of the digits go into the exponent. -/
def dropZeros : List Char → List Char :=
  fun cs => (cs.reverse.dropWhile (· = '0')).reverse

/-- The text of a positive decimal in a layout. -/
def Scientific.render (s : Scientific) (layout : Layout) : List Char :=
  let all := toDigits s.digits
  let lead : Int := s.exponent + all.length - 1
  let digits := dropZeros all
  if layout.least ≤ lead ∧ lead ≤ layout.greatest then
    if lead < 0 then
      '0' :: '.' :: List.replicate (-lead - 1).toNat '0' ++ digits
    else
      let whole := lead.toNat + 1
      if digits.length ≤ whole then
        digits ++ List.replicate (whole - digits.length) '0' ++ layout.wholeEnding
      else digits.take whole ++ '.' :: digits.drop whole
  else
    let mantissa :=
      match digits with
      | [] => []
      | [d] => [d]
      | d :: rest => d :: '.' :: rest
    mantissa ++ layout.mark :: (if lead < 0 then [] else layout.plus) ++ ofInt lead

/-- The text of the finite double with the given bits. -/
def renderDouble (layout : Layout) (bits : UInt64) : List Char :=
  let sign := if Nat.pow 2 63 ≤ bits.toNat then ['-'] else []
  let b := Binary.ofBits bits
  if b.mantissa = 0 then sign ++ '0' :: layout.wholeEnding
  else sign ++ b.shortest.render layout

end ImportResolution.Decimal
