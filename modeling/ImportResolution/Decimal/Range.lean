/-
Whether a written decimal is beyond the doubles: at least halfway from the
greatest double to the next power of two, so that it would round to infinity.
Only a decimal whose leading digit stands where that of the bound stands needs
to be compared digit by digit.
-/
import ImportResolution.Decimal.Digits

namespace ImportResolution.Decimal

/-- The least real that rounds to infinity. -/
def doubleBound : Nat := Nat.pow 2 1024 - Nat.pow 2 970

/-- Whether `whole.fraction · 10 ^ exponent` rounds to infinity. -/
def exceedsDoubles (whole fraction : List Char) (exponent : Int) : Bool :=
  let digits := (whole ++ fraction).dropWhile (· = '0')
  let scale := exponent - fraction.length
  let lead := scale + digits.length
  if digits = [] ∨ lead < 309 then false
  else if 309 < lead then true
  else if 0 ≤ scale then doubleBound ≤ ofDigits digits * Nat.pow 10 scale.toNat
  else doubleBound * Nat.pow 10 (-scale).toNat ≤ ofDigits digits

end ImportResolution.Decimal
