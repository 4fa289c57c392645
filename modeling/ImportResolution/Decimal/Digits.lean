/-
Whole numbers in decimal digits, written and read. Reading a written number
gives it back (`ofDigits_toDigits`).
-/

namespace ImportResolution.Decimal

/-- The character of a digit below ten. -/
def digitChar (d : Nat) : Char :=
  Char.ofNat ('0'.toNat + d)

/-- The value of a digit character. -/
def digitValue (c : Char) : Nat :=
  c.toNat - '0'.toNat

/-- Whether the character is one of the ten digits. -/
def isDigit (c : Char) : Bool :=
  '0' ≤ c && c ≤ '9'

/-- The digits of a number, the highest first; zero is one digit. -/
def toDigits (n : Nat) : List Char :=
  if n < 10 then [digitChar n]
  else toDigits (n / 10) ++ [digitChar (n % 10)]
termination_by n
decreasing_by omega

/-- The number that a list of digits stands for. -/
def ofDigits (cs : List Char) : Nat :=
  cs.foldl (fun n c => n * 10 + digitValue c) 0

theorem digitValue_digitChar {d : Nat} (h : d < 10) : digitValue (digitChar d) = d := by
  have : ∀ d, d < 10 → digitValue (digitChar d) = d := by decide
  exact this d h

theorem isDigit_digitChar {d : Nat} (h : d < 10) : isDigit (digitChar d) = true := by
  have : ∀ d, d < 10 → isDigit (digitChar d) = true := by decide
  exact this d h

/-- Reading the digits of a number gives the number. -/
theorem ofDigits_toDigits (n : Nat) : ofDigits (toDigits n) = n := by
  induction n using Nat.strongRecOn with
  | _ n ih =>
    rw [toDigits]
    split
    · next h => simp [ofDigits, digitValue_digitChar h]
    · next h =>
      have hd := digitValue_digitChar (d := n % 10) (by omega)
      have hn := ih (n / 10) (by omega)
      simp only [ofDigits, List.foldl_append, List.foldl_cons, List.foldl_nil] at hn ⊢
      rw [hn, hd]
      omega

/-- A written number consists of digits. -/
theorem isDigit_of_mem_toDigits {n : Nat} {c : Char} (h : c ∈ toDigits n) : isDigit c = true := by
  induction n using Nat.strongRecOn with
  | _ n ih =>
    rw [toDigits] at h
    split at h
    · next hn => simp at h; subst h; exact isDigit_digitChar hn
    · next hn =>
      rcases List.mem_append.1 h with h | h
      · exact ih (n / 10) (by omega) h
      · simp at h
        subst h
        exact isDigit_digitChar (by omega)

/-- The text of an integer: its digits after a sign if it is negative. -/
def ofInt (i : Int) : List Char :=
  if i < 0 then '-' :: toDigits i.natAbs else toDigits i.natAbs

end ImportResolution.Decimal
