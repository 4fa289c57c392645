/-
Texts and integers are read back as they were written.

A text is read in two passes: first the marks between the quotes, then the
characters that the marks stand for. Each character is written as one mark, and
both passes take that mark for the character whatever comes next
(`escaped_mark`), so the texts follow by induction. An integer ends where its
digits end; what follows must not go on with the number (`EndsNumber`).
-/
import ImportResolution.Json.Document
import ImportResolution.Proofs.Text.Segments
import Mathlib.Data.List.Basic

namespace ImportResolution.Json

variable {c : Char} {cs rest : List Char}

-- ================================================================= texts

theorem hexValue?_hexDigit : ∀ d < 16, hexValue? (hexDigit d) = some d := by
  decide

theorem hexUnit?_hexDigit (h : c.toNat < 32) :
    hexUnit? '0' '0' (hexDigit (c.toNat / 16)) (hexDigit (c.toNat % 16)) = some c.toNat := by
  have hzero : hexValue? '0' = some 0 := rfl
  have hhigh := hexValue?_hexDigit (c.toNat / 16) (by omega)
  have hlow := hexValue?_hexDigit (c.toNat % 16) (by omega)
  have hnumber : ((0 * 16 + 0) * 16 + c.toNat / 16) * 16 + c.toNat % 16 = c.toNat := by omega
  rw [hexUnit?, hzero, hhigh, hlow]
  exact congrArg some hnumber

theorem charsOfMarks?_unit {n : Nat} (h : n < 0xD800) (ms : List Mark) :
    charsOfMarks? (.unit n :: ms) = (charsOfMarks? ms).map (Char.ofNat n :: ·) := by
  have hhigh : isHigh n = false := by
    simp only [isHigh, Bool.and_eq_false_iff, decide_eq_false_iff_not]
    omega
  have hlow : isLow n = false := by
    simp only [isLow, Bool.and_eq_false_iff, decide_eq_false_iff_not]
    omega
  match ms with
  | [] => simp [charsOfMarks?, hhigh, hlow]
  | .plain d :: ms => simp [charsOfMarks?, hhigh, hlow]
  | .unit m :: ms => simp [charsOfMarks?, hhigh, hlow]

/-- A written character is one mark, which stands for the character. -/
theorem escaped_mark (c : Char) : ∃ m : Mark,
    (∀ cs, marks? (escaped c ++ cs) = (marks? cs).map fun p => (m :: p.1, p.2)) ∧
      ∀ ms, charsOfMarks? (m :: ms) = (charsOfMarks? ms).map (c :: ·) := by
  have hletter {letter : Char} (h : letterEscape? letter = some c ∧ letter ≠ 'u') :
      ∃ m : Mark, (∀ cs, marks? (['\\', letter] ++ cs)
        = (marks? cs).map fun p => (m :: p.1, p.2)) ∧
          ∀ ms, charsOfMarks? (m :: ms) = (charsOfMarks? ms).map (c :: ·) := by
    refine ⟨.plain c, fun cs => ?_, fun ms => rfl⟩
    rw [List.cons_append, List.singleton_append, marks?, h.1]
    intro _ _ _ _ _ heq
    exact absurd heq h.2
  unfold escaped
  by_cases hquote : c = '"'
  · subst hquote
    exact hletter (by decide)
  rw [if_neg hquote]
  by_cases hslash : c = '\\'
  · subst hslash
    exact hletter (by decide)
  rw [if_neg hslash]
  by_cases hn : c = '\n'
  · subst hn
    exact hletter (by decide)
  rw [if_neg hn]
  by_cases hr : c = '\r'
  · subst hr
    exact hletter (by decide)
  rw [if_neg hr]
  by_cases ht : c = '\t'
  · subst ht
    exact hletter (by decide)
  rw [if_neg ht]
  by_cases hb : c = '\x08'
  · subst hb
    exact hletter (by decide)
  rw [if_neg hb]
  by_cases hf : c = '\x0c'
  · subst hf
    exact hletter (by decide)
  rw [if_neg hf]
  by_cases hcontrol : c.toNat < 32
  · rw [if_pos hcontrol]
    refine ⟨.unit c.toNat, fun cs => ?_, fun ms => ?_⟩
    · simp only [List.cons_append, List.nil_append]
      rw [marks?, hexUnit?_hexDigit hcontrol]
    · rw [charsOfMarks?_unit (by omega), Char.ofNat_toNat]
  · rw [if_neg hcontrol]
    refine ⟨.plain c, fun cs => ?_, fun ms => rfl⟩
    rw [List.singleton_append, marks?, if_neg (not_or.mpr ⟨hcontrol, hslash⟩)]
    · exact hquote
    · intro _ _ _ _ _ heq
      exact absurd heq hslash
    · intro _ _ heq
      exact absurd heq hslash

theorem quotedText?_escaped (s : String) (rest : List Char) :
    quotedText? (s.toList.flatMap escaped ++ '"' :: rest) = some (some s, rest) := by
  suffices h : ∃ ms, marks? (s.toList.flatMap escaped ++ '"' :: rest) = some (ms, rest) ∧
      charsOfMarks? ms = some s.toList by
    obtain ⟨ms, hmarks, hchars⟩ := h
    rw [quotedText?, hmarks, Option.map_some, hchars, Option.map_some, String.ofList_toList]
  induction s.toList with
  | nil => exact ⟨[], rfl, rfl⟩
  | cons c cs ih =>
      obtain ⟨ms, hmarks, hchars⟩ := ih
      obtain ⟨m, hmark, hchar⟩ := escaped_mark c
      refine ⟨m :: ms, ?_, ?_⟩
      · rw [List.flatMap_cons, List.append_assoc, hmark, hmarks]
        rfl
      · rw [hchar, hchars]
        rfl

-- ============================================================== integers

/-- What follows a whole number does not go on with it. -/
def EndsNumber (rest : List Char) : Prop :=
  ∀ c, rest.head? = some c → Decimal.isDigit c = false ∧ c ≠ '.' ∧ c ≠ 'e' ∧ c ≠ 'E'

theorem endsNumber_nil : EndsNumber [] :=
  nofun

theorem endsNumber_cons (h : Decimal.isDigit c = false ∧ c ≠ '.' ∧ c ≠ 'e' ∧ c ≠ 'E') :
    EndsNumber (c :: rest) := by
  rintro _ ⟨⟩
  exact h

theorem spanDigits_append (hdigits : ∀ c ∈ cs, Decimal.isDigit c = true) (h : EndsNumber rest) :
    spanDigits (cs ++ rest) = (cs, rest) := by
  have hnone : ∀ c, rest.head? = some c → Decimal.isDigit c = false := fun c hc => (h c hc).1
  rw [spanDigits, List.takeWhile_append_of_pos hdigits, List.dropWhile_append_of_pos hdigits,
    Text.takeWhile_of_head hnone, Text.dropWhile_of_head hnone, List.append_nil]

theorem toDigits_ne_nil (n : Nat) : Decimal.toDigits n ≠ [] := by
  rw [Decimal.toDigits]
  split <;> simp

/-- Only zero itself starts with a zero. -/
theorem head?_toDigits {n : Nat} (h : 0 < n) : (Decimal.toDigits n).head? ≠ some '0' := by
  induction n using Nat.strongRecOn with
  | _ n ih =>
      rw [Decimal.toDigits]
      split
      · next hn =>
          have hall : ∀ d < 10, 0 < d → [Decimal.digitChar d].head? ≠ some '0' := by decide
          exact hall n hn h
      · next hn =>
          rw [List.head?_append_of_ne_nil _ (toDigits_ne_nil _)]
          exact ih (n / 10) (by omega) (by omega)

theorem leadingWord_of_le {n : Nat} (cs : List Char)
    (h : cs.foldl (fun n c => n * 10 + Decimal.digitValue c) n ≤ maxWord) :
    leadingWord n cs = (cs.foldl (fun n c => n * 10 + Decimal.digitValue c) n, 0) := by
  have hle : ∀ (cs : List Char) (n : Nat),
      n ≤ cs.foldl (fun n c => n * 10 + Decimal.digitValue c) n := by
    intro cs
    induction cs with
    | nil => exact fun n => Nat.le_refl n
    | cons c cs ih =>
        intro n
        exact Nat.le_trans (by omega) (ih (n * 10 + Decimal.digitValue c))
  induction cs generalizing n with
  | nil => rfl
  | cons c cs ih =>
      rw [List.foldl_cons] at h ⊢
      rw [leadingWord, if_pos (Nat.le_trans (hle cs _) h), ih h]

theorem leadingWord_toDigits {n : Nat} (h : n ≤ maxWord) :
    leadingWord 0 (Decimal.toDigits n) = (n, 0) := by
  have hn := Decimal.ofDigits_toDigits n
  unfold Decimal.ofDigits at hn
  rw [leadingWord_of_le _ (by rw [hn]; exact h), hn]

/-- The numeral of an integer. -/
def numeralOf (i : Int) : Numeral :=
  ⟨decide (i < 0), Decimal.toDigits i.natAbs, [], none⟩

theorem fraction?_of_endsNumber (h : EndsNumber rest) :
    Numeral.fraction? rest = some ([], rest) := by
  rw [Numeral.fraction?]
  rintro _ rfl
  exact (h '.' rfl).2.1 rfl

theorem exponent?_of_endsNumber (h : EndsNumber rest) :
    Numeral.exponent? rest = some (none, rest) := by
  rw [Numeral.exponent?]
  · rintro _ rfl
    exact (h 'e' rfl).2.2.1 rfl
  · rintro _ rfl
    exact (h 'E' rfl).2.2.2 rfl

/-- Digits without a needless zero are read as the digits of a whole number. -/
theorem read?_unsigned (n : Nat) (h : EndsNumber rest) (negative : Bool) :
    (match Decimal.toDigits n with
      | [] => none
      | '0' :: _ :: _ => none
      | _ => (Numeral.fraction? rest).bind fun p => (Numeral.exponent? p.2).bind fun q =>
        some ((⟨negative, Decimal.toDigits n, p.1, q.1⟩ : Numeral), q.2))
      = some (⟨negative, Decimal.toDigits n, [], none⟩, rest) := by
  split
  · next hnil => exact absurd hnil (toDigits_ne_nil n)
  · next hzero =>
      by_cases hn : 0 < n
      · exact absurd (congrArg List.head? hzero) (head?_toDigits hn)
      · obtain rfl := Nat.eq_zero_of_not_pos hn
        rw [Decimal.toDigits, if_pos (by decide)] at hzero
        cases hzero
  · rw [fraction?_of_endsNumber h, Option.bind_some, exponent?_of_endsNumber h, Option.bind_some]

theorem read?_ofInt (i : Int) (h : EndsNumber rest) :
    Numeral.read? (Decimal.ofInt i ++ rest) = some (numeralOf i, rest) := by
  have hdigits : ∀ c ∈ Decimal.toDigits i.natAbs, Decimal.isDigit c = true :=
    fun c hc => Decimal.isDigit_of_mem_toDigits hc
  have hspan := spanDigits_append hdigits h
  unfold Decimal.ofInt numeralOf
  by_cases hi : i < 0
  · rw [if_pos hi, List.cons_append, Numeral.read?, decide_eq_true hi]
    simp only [hspan]
    exact read?_unsigned i.natAbs h true
  · rw [if_neg hi, Numeral.read?, decide_eq_false hi]
    · simp only [hspan]
      exact read?_unsigned i.natAbs h false
    · intro after heq
      obtain ⟨d, ds, hd⟩ := List.exists_cons_of_ne_nil (toDigits_ne_nil i.natAbs)
      rw [hd, List.cons_append] at heq
      injection heq with heq _
      subst heq
      cases hdigits '-' (hd ▸ List.mem_cons_self)

/-- Whether an integer fits sixty-four bits, with a sign or without. -/
def FitsWord (i : Int) : Prop :=
  -(Nat.pow 2 63 : Nat) ≤ i ∧ i < (Nat.pow 2 64 : Nat)

instance (i : Int) : Decidable (FitsWord i) := inferInstanceAs (Decidable (_ ∧ _))

theorem value?_numeralOf {i : Int} (h : FitsWord i) : (numeralOf i).value? = some (.integer i) := by
  have hmax : maxWord = 2 ^ 64 - 1 := rfl
  have hpow : Nat.pow 2 63 = 2 ^ 63 := rfl
  have hpow' : Nat.pow 2 64 = 2 ^ 64 := rfl
  have hle : i.natAbs ≤ maxWord := by
    unfold FitsWord at h
    omega
  unfold numeralOf Numeral.value?
  rw [leadingWord_toDigits hle]
  dsimp only
  rw [if_pos ⟨rfl, rfl, rfl⟩]
  by_cases hi : i < 0
  · have hsmall : 0 < i.natAbs ∧ i.natAbs ≤ Nat.pow 2 63 := by
      unfold FitsWord at h
      omega
    have hneg : -(i.natAbs : Int) = i := by omega
    rw [decide_eq_true hi, if_neg Bool.noConfusion, if_pos hsmall, hneg]
  · have hpos : (i.natAbs : Int) = i := by omega
    rw [decide_eq_false hi, if_pos rfl, hpos]

end ImportResolution.Json
