/-
What is written between quotes is read back, whichever quotes the writer chose.

# Characters and runs of quotes

Between double quotes a character other than a quote either stands for itself or
is written as an escape that the reader takes for that character
(`writtenChar_cases`); so a string on one line is read back one character at a
time. Over several lines the quotes of the string itself are the difficulty: the
reader takes them in runs and gives the last three of a run to the end of the
string. The induction over the characters therefore carries the quotes that were
passed over and not yet taken, at most two of them, and the run is taken as a
whole when it ends, at a character (`threefoldBasicBody_run`) or at the closing
quotes (`threefoldBasicBody_close`).

# The four kinds

`written_cases` says what each kind of quotes requires of the string, and
`anyString_written` tries the kinds in the reader's order.
-/
import ImportResolution.Toml.Quoted
import ImportResolution.Proofs.Toml.Scan

namespace ImportResolution.Toml

open Scan (ne_of_holds)

variable {cs rest body : List Char} {fuel : Nat} {c : Char}

-- ================================================================ escapes

theorem hexValue?_capitalHexDigit : ∀ d < 16, Json.hexValue? (capitalHexDigit d) = some d := by
  decide

theorem toNat_lt_of_isControl (h : isControl c = true) : c.toNat < 0x80 := by
  unfold isControl at h
  simp only [Bool.or_eq_true, Bool.and_eq_true, decide_eq_true_eq] at h
  rcases h with h | rfl
  · omega
  · decide

theorem charOfHex?_toNat (h : c.toNat < 0x80) :
    charOfHex? ['0', '0', capitalHexDigit (c.toNat / 16), capitalHexDigit (c.toNat % 16)]
      = some c := by
  have hhigh := hexValue?_capitalHexDigit (c.toNat / 16) (by omega)
  have hlow := hexValue?_capitalHexDigit (c.toNat % 16) (by omega)
  have hzero : Json.hexValue? '0' = some 0 := rfl
  have hdigits : ['0', '0', capitalHexDigit (c.toNat / 16), capitalHexDigit (c.toNat % 16)].mapM
      Json.hexValue? = some [0, 0, c.toNat / 16, c.toNat % 16] := by
    simp [hhigh, hlow, hzero]
  have hnumber : [0, 0, c.toNat / 16, c.toNat % 16].foldl (fun n d => n * 16 + d) 0 = c.toNat := by
    simp only [List.foldl_cons, List.foldl_nil]
    omega
  rw [charOfHex?, hdigits, Option.bind_some, hnumber, charOfNumber?, if_pos (by omega),
    Char.ofNat_toNat]

/-- Letters that the reader takes for `c` after a backslash. They do not join the
line with the next one either. -/
def Escapes (letters : List Char) (c : Char) : Prop :=
  ∀ rest, escape (letters ++ rest) = .done c rest ∧ afterJoin? (letters ++ rest) = none

theorem escapes_letter {letter : Char} (hletter : escapeLetter? letter = some c)
    (hu : letter ≠ 'u' ∧ letter ≠ 'U') (hgap : isGap letter = false)
    (hend : letter ≠ '\n' ∧ letter ≠ '\r') : Escapes [letter] c := by
  intro rest
  constructor
  · show escape (letter :: rest) = _
    rw [escape]
    · simp [hletter]
    · exact hu.1
    · exact hu.2
  · show afterJoin? (letter :: rest) = none
    rw [afterJoin?, List.dropWhile_cons_of_neg (by simp [hgap]), afterLineEnd?]
    · rfl
    · simp [hend]
    · simp [hend]

theorem escapes_number (h : c.toNat < 0x80) :
    Escapes ['u', '0', '0', capitalHexDigit (c.toNat / 16), capitalHexDigit (c.toNat % 16)] c := by
  intro rest
  constructor
  · show escape ('u' :: '0' :: '0' :: capitalHexDigit (c.toNat / 16) ::
      capitalHexDigit (c.toNat % 16) :: rest) = _
    rw [escape]
    simp only [List.take_succ_cons, List.take_zero, charOfHex?_toNat h]
    simp
  · rfl

theorem writtenChar_cases (several : Bool) (hc : c ≠ '"') :
    (writtenChar several c = [c] ∧ (isBasic c = true ∨ (several = true ∧ c = '\n'))) ∨
      ∃ letters, writtenChar several c = '\\' :: letters ∧ Escapes letters c := by
  have hletter {letter : Char} (h : escapeLetter? letter = some c ∧
      (letter ≠ 'u' ∧ letter ≠ 'U') ∧ isGap letter = false ∧ letter ≠ '\n' ∧ letter ≠ '\r') :
      ∃ letters, ['\\', letter] = '\\' :: letters ∧ Escapes letters c :=
    ⟨[letter], rfl, escapes_letter h.1 h.2.1 h.2.2.1 h.2.2.2⟩
  unfold writtenChar
  by_cases hb : c = '\x08'
  · subst hb
    exact Or.inr (hletter (by decide))
  rw [if_neg hb]
  by_cases ht : c = '\t'
  · subst ht
    exact Or.inr (hletter (by decide))
  rw [if_neg ht]
  by_cases hn : c = '\n'
  · subst hn
    rw [if_pos rfl]
    cases several with
    | true => exact Or.inl ⟨rfl, Or.inr ⟨rfl, rfl⟩⟩
    | false => exact Or.inr (hletter (by decide))
  rw [if_neg hn]
  by_cases hf : c = '\x0c'
  · subst hf
    exact Or.inr (hletter (by decide))
  rw [if_neg hf]
  by_cases hr : c = '\r'
  · subst hr
    exact Or.inr (hletter (by decide))
  rw [if_neg hr]
  by_cases hs : c = '\\'
  · subst hs
    exact Or.inr (hletter (by decide))
  rw [if_neg hs]
  by_cases hcontrol : isControl c = true
  · rw [if_pos hcontrol]
    exact Or.inr ⟨_, rfl, escapes_number (toNat_lt_of_isControl hcontrol)⟩
  · rw [if_neg hcontrol]
    refine Or.inl ⟨rfl, Or.inl ?_⟩
    simp [isBasic, hcontrol, hc, hs]

theorem head?_writtenChar_append (several : Bool) (hc : c ≠ '"') (cs : List Char) :
    (writtenChar several c ++ cs).head? ≠ some '"' := by
  rcases writtenChar_cases several hc with ⟨hsame, -⟩ | ⟨letters, hletters, -⟩
  · rw [hsame]
    simpa using hc
  · rw [hletters]
    simp

theorem length_writtenChar_pos (several : Bool) (c : Char) :
    0 < (writtenChar several c).length := by
  unfold writtenChar
  repeat' split
  all_goals exact Nat.zero_lt_succ _

theorem length_le_length_writtenBody (several : Bool) (spare run : Nat) (cs : List Char) :
    cs.length ≤ (writtenBody several spare run cs).length := by
  induction cs generalizing run with
  | nil => exact Nat.zero_le _
  | cons c cs ih =>
      unfold writtenBody
      split
      · split
        · simpa using ih (run + 1)
        · have := ih 0
          simp only [List.length_cons]
          omega
      · have := ih 0
        have := length_writtenChar_pos several c
        simp only [List.length_cons, List.length_append]
        omega

-- =================================================== strings on one line

theorem basicBody_writtenBody (cs rest : List Char) (h : cs.length < fuel) :
    basicBody fuel (writtenBody false 0 0 cs ++ '"' :: rest) = .done cs rest := by
  induction cs generalizing fuel with
  | nil =>
      obtain ⟨fuel, rfl⟩ := Nat.exists_eq_add_of_lt h
      rfl
  | cons c cs ih =>
      obtain ⟨spare, rfl⟩ := Nat.exists_eq_add_of_lt h
      have hle : cs.length < (c :: cs).length + spare := by
        rw [List.length_cons]
        omega
      have hrest := ih hle
      by_cases hc : c = '"'
      · subst hc
        have hescape : escape ('"' :: (writtenBody false 0 0 cs ++ '"' :: rest))
            = .done '"' (writtenBody false 0 0 cs ++ '"' :: rest) := rfl
        rw [writtenBody, if_pos rfl, if_neg (Nat.not_lt_zero 0)]
        simp only [List.cons_append, basicBody, hescape, hrest]
      · rw [writtenBody, if_neg hc, List.append_assoc]
        rcases writtenChar_cases false hc with
          ⟨hsame, hbasic | ⟨hfalse, -⟩⟩ | ⟨letters, hletters, hescape⟩
        · rw [hsame, List.singleton_append, basicBody, if_pos hbasic, hrest]
          · exact hc
          · exact ne_of_holds hbasic rfl
        · cases hfalse
        · rw [hletters, List.cons_append, basicBody, (hescape _).1]
          simp only [hrest]

theorem basicString_written (cs rest : List Char) :
    basicString ('"' :: (writtenBody false 0 0 cs ++ '"' :: rest)) = .done cs rest := by
  refine basicBody_writtenBody cs rest ?_
  have := length_le_length_writtenBody false 0 0 cs
  simp only [List.length_append, List.length_cons]
  omega

theorem literalString_written (h : ∀ c ∈ cs, isLiteral c = true) :
    literalString ('\'' :: (cs ++ '\'' :: rest)) = .done cs rest := by
  have hquote : ¬ isLiteral '\'' = true := by decide
  rw [literalString, List.dropWhile_append_of_pos h, List.takeWhile_append_of_pos h,
    List.dropWhile_cons_of_neg hquote, List.takeWhile_cons_of_neg hquote, List.append_nil]
  rfl

-- ========================================================= runs of quotes

/-- No more than `n` quotes stand in a row, where `run` of them went before. -/
def RunsWithin (quote : Char) (n : Nat) : Nat → List Char → Prop
  | _, [] => True
  | run, c :: cs =>
    if c = quote then run < n ∧ RunsWithin quote n (run + 1) cs else RunsWithin quote n 0 cs

theorem longestRun_le_iff {quote : Char} {n : Nat} :
    longestRun quote cs ≤ n ↔ RunsWithin quote n 0 cs := by
  suffices h : ∀ best run, (cs.foldl (fun p d =>
      if d = quote then (max p.1 (p.2 + 1), p.2 + 1) else (p.1, 0)) (best, run)).1 ≤ n
      ↔ best ≤ n ∧ RunsWithin quote n run cs from
    (h 0 0).trans (and_iff_right (Nat.zero_le n))
  induction cs with
  | nil => exact fun best run => (and_iff_left trivial).symm
  | cons c cs ih =>
      intro best run
      rw [List.foldl_cons]
      unfold RunsWithin
      by_cases hc : c = quote
      · simp only [if_pos hc]
        rw [ih, Nat.max_le, and_assoc, Nat.succ_le_iff]
      · simp only [if_neg hc]
        rw [ih]

theorem RunsWithin.not_mem {quote : Char} {run : Nat} (h : RunsWithin quote 0 run cs) :
    quote ∉ cs := by
  induction cs generalizing run with
  | nil => exact List.not_mem_nil
  | cons c cs ih =>
      unfold RunsWithin at h
      split at h
      · exact absurd h.1 (Nat.not_lt_zero run)
      · next hc =>
          intro hmem
          rcases List.mem_cons.mp hmem with heq | hmem
          · exact hc heq.symm
          · exact ih h hmem

theorem quoteRun_replicate {quote : Char} {n : Nat} (hn : n ≤ 5) (h : rest.head? ≠ some quote) :
    quoteRun quote (List.replicate n quote ++ rest) = n := by
  have hall : ∀ c ∈ List.replicate n quote, (c = quote : Bool) = true := by
    intro c hc
    exact decide_eq_true (List.eq_of_mem_replicate hc)
  have hnone : (rest.take (5 - n)).takeWhile (· = quote) = [] := by
    refine Text.takeWhile_of_head fun c hc => decide_eq_false ?_
    rintro rfl
    rw [List.head?_take] at hc
    split at hc
    · cases hc
    · exact h hc
  rw [quoteRun, List.take_append, List.length_replicate, List.take_of_length_le (by simpa using hn),
    List.takeWhile_append_of_pos hall, hnone, List.append_nil, List.length_replicate]

/-- A quote after pending ones is one more of them. -/
private theorem replicate_append_cons (quote : Char) (k : Nat) (cs : List Char) :
    List.replicate k quote ++ quote :: cs = List.replicate (k + 1) quote ++ cs := by
  rw [List.replicate_succ', List.append_assoc, List.singleton_append]

-- ================================================================ line ends

theorem afterLineEnd?_of_head (hn : cs.head? ≠ some '\n') (hr : cs.head? ≠ some '\r') :
    afterLineEnd? cs = none := by
  rw [afterLineEnd?]
  · rintro rest rfl
    exact hn rfl
  · rintro rest rfl
    exact hr rfl

/-- The line end right after opening quotes, which keeps a line end of the string
from being dropped. -/
def opening (cs : List Char) : List Char :=
  if cs.contains '\n' then ['\n'] else []

theorem dropLineEnd_opening {text : List Char}
    (h : '\n' ∉ cs → text.head? ≠ some '\n' ∧ text.head? ≠ some '\r') :
    dropLineEnd (opening cs ++ text) = text := by
  unfold opening
  by_cases hline : '\n' ∈ cs
  · rw [if_pos (List.contains_iff_mem.mpr hline)]
    rfl
  · have hnone := h hline
    rw [if_neg (by simpa using hline), List.nil_append, dropLineEnd,
      afterLineEnd?_of_head hnone.1 hnone.2]
    rfl

-- ================================= double quotes over several lines

theorem threefoldBasicBody_close {k : Nat} (hk : k ≤ 2) (h : rest.head? ≠ some '"') :
    threefoldBasicBody (fuel + 1) (List.replicate k '"' ++ '"' :: '"' :: '"' :: rest)
      = .done (List.replicate k '"') rest := by
  have hrun := quoteRun_replicate (n := k + 3) (by omega) h
  simp only [replicate_append_cons]
  show threefoldBasicBody (fuel + 1) ('"' :: (List.replicate (k + 2) '"' ++ rest)) = _
  rw [threefoldBasicBody, ← List.cons_append, ← List.replicate_succ, hrun]
  simp

theorem threefoldBasicBody_run {k n : Nat} (hk : k ≤ 2) (hquote : cs.head? ≠ some '"')
    (hne : cs ≠ []) (h : ∀ fuel, n < fuel → threefoldBasicBody fuel cs = .done body rest) :
    ∀ fuel, n + k < fuel → threefoldBasicBody fuel (List.replicate k '"' ++ cs)
      = .done (List.replicate k '"' ++ body) rest := by
  intro fuel hfuel
  cases k with
  | zero => exact h fuel hfuel
  | succ k =>
      obtain ⟨spare, rfl⟩ := Nat.exists_eq_add_of_lt hfuel
      have hrun := quoteRun_replicate (n := k + 1) (by omega) hquote
      have hstep := h (n + (k + 1) + spare) (by omega)
      show threefoldBasicBody (n + (k + 1) + spare + 1) ('"' :: (List.replicate k '"' ++ cs)) = _
      rw [threefoldBasicBody, ← List.cons_append, ← List.replicate_succ, hrun,
        List.drop_left' List.length_replicate, if_neg (by omega), if_neg hne, hstep]

theorem threefoldBasicBody_char (hc : c ≠ '"')
    (h : threefoldBasicBody fuel cs = .done body rest) :
    threefoldBasicBody (fuel + 1) (writtenChar true c ++ cs) = .done (c :: body) rest := by
  rcases writtenChar_cases true hc with ⟨hsame, hbasic | ⟨-, rfl⟩⟩ | ⟨letters, hletters, hescape⟩
  · have hline : afterLineEnd? (c :: cs) = none :=
      afterLineEnd?_of_head (by simpa using ne_of_holds hbasic rfl)
        (by simpa using ne_of_holds hbasic rfl)
    rw [hsame, List.singleton_append, threefoldBasicBody]
    · simp only [hline, if_pos hbasic, h]
    · exact hc
    · exact ne_of_holds hbasic rfl
  · show threefoldBasicBody (fuel + 1) ('\n' :: cs) = _
    rw [threefoldBasicBody]
    · simp only [afterLineEnd?, h]
    · decide
    · decide
  · rw [hletters, List.cons_append, threefoldBasicBody, (hescape _).2]
    simp only [(hescape _).1, h]

theorem threefoldBasicBody_writtenBody {k : Nat} (hk : k ≤ 2) (h : rest.head? ≠ some '"')
    (cs : List Char) :
    ∀ fuel, cs.length + k < fuel →
      threefoldBasicBody fuel
          (List.replicate k '"' ++ (writtenBody true 2 k cs ++ '"' :: '"' :: '"' :: rest))
        = .done (List.replicate k '"' ++ cs) rest := by
  induction cs generalizing k with
  | nil =>
      intro fuel hfuel
      obtain ⟨spare, rfl⟩ := Nat.exists_eq_add_of_lt hfuel
      rw [List.append_nil]
      exact threefoldBasicBody_close hk h
  | cons c cs ih =>
      have hclean := ih (k := 0) (Nat.zero_le 2)
      by_cases hc : c = '"'
      · subst hc
        by_cases hspare : k < 2
        · intro fuel hfuel
          rw [writtenBody, if_pos rfl, if_pos hspare, List.cons_append, replicate_append_cons,
            replicate_append_cons]
          exact ih hspare fuel (by simp only [List.length_cons] at hfuel; omega)
        · rw [writtenBody, if_pos rfl, if_neg hspare]
          refine threefoldBasicBody_run (n := cs.length + 1) hk (by simp) (by simp) ?_
          intro fuel hfuel
          obtain ⟨spare, rfl⟩ := Nat.exists_eq_add_of_lt hfuel
          have hnext := hclean (cs.length + 1 + spare) (by omega)
          simp only [List.replicate_zero, List.nil_append] at hnext
          have hescape : escape ('"' :: (writtenBody true 2 0 cs ++ '"' :: '"' :: '"' :: rest))
              = .done '"' (writtenBody true 2 0 cs ++ '"' :: '"' :: '"' :: rest) := rfl
          have hjoin : afterJoin? ('"' :: (writtenBody true 2 0 cs ++ '"' :: '"' :: '"' :: rest))
              = none := rfl
          simp only [List.cons_append, threefoldBasicBody, hjoin, hescape, hnext]
      · rw [writtenBody, if_neg hc, List.append_assoc]
        refine threefoldBasicBody_run (n := cs.length + 1) hk (head?_writtenChar_append true hc _)
          ?_ ?_
        · have := length_writtenChar_pos true c
          exact List.ne_nil_of_length_pos (by rw [List.length_append]; omega)
        · intro fuel hfuel
          obtain ⟨spare, rfl⟩ := Nat.exists_eq_add_of_lt hfuel
          exact threefoldBasicBody_char hc (hclean _ (by omega))

theorem head?_writtenBody_append (cs rest : List Char) (hline : '\n' ∉ cs) :
    (writtenBody true 2 0 cs ++ '"' :: rest).head? ≠ some '\n' ∧
      (writtenBody true 2 0 cs ++ '"' :: rest).head? ≠ some '\r' := by
  cases cs with
  | nil => simp [writtenBody]
  | cons c cs =>
      unfold writtenBody
      by_cases hc : c = '"'
      · subst hc
        simp
      · rw [if_neg hc, List.append_assoc]
        rcases writtenChar_cases true hc with
          ⟨hsame, hbasic | ⟨-, rfl⟩⟩ | ⟨letters, hletters, -⟩
        · rw [hsame]
          exact ⟨by simpa using ne_of_holds hbasic rfl, by simpa using ne_of_holds hbasic rfl⟩
        · exact absurd List.mem_cons_self hline
        · rw [hletters]
          simp

theorem threefoldBasicString_written (cs : List Char) (h : rest.head? ≠ some '"') :
    threefoldBasicString ('"' :: '"' :: '"' ::
        (opening cs ++ (writtenBody true 2 0 cs ++ '"' :: '"' :: '"' :: rest)))
      = .done cs rest := by
  rw [threefoldBasicString, dropLineEnd_opening (head?_writtenBody_append cs _)]
  refine threefoldBasicBody_writtenBody (k := 0) (Nat.zero_le 2) h cs _ ?_
  have := length_le_length_writtenBody true 2 0 cs
  simp only [List.length_append, List.length_cons]
  omega

-- ================================= single quotes over several lines

/-- What may stand between threefold single quotes besides such quotes. -/
def IsPlain (c : Char) : Prop :=
  isLiteral c = true ∨ c = '\n'

theorem threefoldLiteralBody_close {k : Nat} (hk : k ≤ 2) (h : rest.head? ≠ some '\'') :
    threefoldLiteralBody (fuel + 1) (List.replicate k '\'' ++ '\'' :: '\'' :: '\'' :: rest)
      = .done (List.replicate k '\'') rest := by
  have hrun := quoteRun_replicate (n := k + 3) (by omega) h
  simp only [replicate_append_cons]
  show threefoldLiteralBody (fuel + 1) ('\'' :: (List.replicate (k + 2) '\'' ++ rest)) = _
  rw [threefoldLiteralBody, ← List.cons_append, ← List.replicate_succ, hrun]
  simp

theorem threefoldLiteralBody_run {k n : Nat} (hk : k ≤ 2) (hc : IsPlain c)
    (h : ∀ fuel, n < fuel → threefoldLiteralBody fuel (c :: cs) = .done body rest) :
    ∀ fuel, n + k < fuel → threefoldLiteralBody fuel (List.replicate k '\'' ++ c :: cs)
      = .done (List.replicate k '\'' ++ body) rest := by
  intro fuel hfuel
  cases k with
  | zero => exact h fuel hfuel
  | succ k =>
      obtain ⟨spare, rfl⟩ := Nat.exists_eq_add_of_lt hfuel
      have hquote : (c :: cs).head? ≠ some '\'' := by
        rintro ⟨⟩
        rcases hc with hc | hc <;> cases hc
      have hrun := quoteRun_replicate (n := k + 1) (by omega) hquote
      have hstep := h (n + (k + 1) + spare) (by omega)
      have hplain : isLiteral c = true ∨ (afterLineEnd? (c :: cs)).isSome = true := by
        rcases hc with hc | rfl
        · exact Or.inl hc
        · exact Or.inr rfl
      show threefoldLiteralBody (n + (k + 1) + spare + 1)
        ('\'' :: (List.replicate k '\'' ++ c :: cs)) = _
      rw [threefoldLiteralBody, ← List.cons_append, ← List.replicate_succ, hrun,
        List.drop_left' List.length_replicate, if_neg (by omega)]
      simp only [if_pos hplain, hstep]

theorem threefoldLiteralBody_char (hc : IsPlain c)
    (h : threefoldLiteralBody fuel cs = .done body rest) :
    threefoldLiteralBody (fuel + 1) (c :: cs) = .done (c :: body) rest := by
  rcases hc with hc | rfl
  · have hline : afterLineEnd? (c :: cs) = none :=
      afterLineEnd?_of_head (by simpa using ne_of_holds hc rfl) (by simpa using ne_of_holds hc rfl)
    rw [threefoldLiteralBody]
    · simp only [hline, if_pos hc, h]
    · exact ne_of_holds hc rfl
  · rw [threefoldLiteralBody]
    · simp only [afterLineEnd?, h]
    · decide

theorem threefoldLiteralBody_of_runsWithin {k : Nat} (hk : k ≤ 2) (h : rest.head? ≠ some '\'')
    (cs : List Char) (hruns : RunsWithin '\'' 2 k cs) (hplain : ∀ c ∈ cs, c = '\'' ∨ IsPlain c) :
    ∀ fuel, cs.length + k < fuel →
      threefoldLiteralBody fuel (List.replicate k '\'' ++ (cs ++ '\'' :: '\'' :: '\'' :: rest))
        = .done (List.replicate k '\'' ++ cs) rest := by
  induction cs generalizing k with
  | nil =>
      intro fuel hfuel
      obtain ⟨spare, rfl⟩ := Nat.exists_eq_add_of_lt hfuel
      rw [List.append_nil]
      exact threefoldLiteralBody_close hk h
  | cons c cs ih =>
      have hrest : ∀ c ∈ cs, c = '\'' ∨ IsPlain c :=
        fun d hd => hplain d (List.mem_cons_of_mem _ hd)
      unfold RunsWithin at hruns
      by_cases hc : c = '\''
      · subst hc
        rw [if_pos rfl] at hruns
        intro fuel hfuel
        rw [List.cons_append, replicate_append_cons, replicate_append_cons]
        exact ih hruns.1 hruns.2 hrest fuel (by simp only [List.length_cons] at hfuel; omega)
      · rw [if_neg hc] at hruns
        have hhead : IsPlain c := (hplain c List.mem_cons_self).resolve_left hc
        refine threefoldLiteralBody_run (n := cs.length + 1) hk hhead ?_
        intro fuel hfuel
        obtain ⟨spare, rfl⟩ := Nat.exists_eq_add_of_lt hfuel
        exact threefoldLiteralBody_char hhead (ih (Nat.zero_le 2) hruns hrest _ (by omega))

theorem threefoldLiteralString_written (hruns : RunsWithin '\'' 2 0 cs)
    (hplain : ∀ c ∈ cs, c = '\'' ∨ IsPlain c) (h : rest.head? ≠ some '\'') :
    threefoldLiteralString ('\'' :: '\'' :: '\'' ::
        (opening cs ++ (cs ++ '\'' :: '\'' :: '\'' :: rest)))
      = .done cs rest := by
  have hhead : '\n' ∉ cs → (cs ++ '\'' :: '\'' :: '\'' :: rest).head? ≠ some '\n' ∧
      (cs ++ '\'' :: '\'' :: '\'' :: rest).head? ≠ some '\r' := by
    intro hline
    cases cs with
    | nil => simp
    | cons c cs =>
        constructor
        · rintro ⟨⟩
          exact hline List.mem_cons_self
        · rintro ⟨⟩
          rcases hplain '\r' List.mem_cons_self with h | h | h <;> cases h
  rw [threefoldLiteralString, dropLineEnd_opening hhead]
  refine threefoldLiteralBody_of_runsWithin (k := 0) (Nat.zero_le 2) h cs hruns hplain _ ?_
  simp only [List.length_append, List.length_cons]
  omega

-- ========================================================= the four kinds

theorem written_cases (s : String) :
    written s = '"' :: writtenBody false 0 0 s.toList ++ ['"'] ∨
      (written s = '\'' :: s.toList ++ ['\''] ∧ s.toList ≠ [] ∧
        ∀ c ∈ s.toList, isLiteral c = true) ∨
      written s = ['"', '"', '"'] ++ opening s.toList ++ writtenBody true 2 0 s.toList
        ++ ['"', '"', '"'] ∨
      (written s = ['\'', '\'', '\''] ++ opening s.toList ++ s.toList ++ ['\'', '\'', '\''] ∧
        RunsWithin '\'' 2 0 s.toList ∧ ∀ c ∈ s.toList, c = '\'' ∨ IsPlain c) := by
  have hneeds (h : s.toList.any needsEscape = false) (c : Char) (hc : c ∈ s.toList) :
      isControl c = false ∨ c = '\n' := by
    have := List.any_eq_false.mp h c hc
    simpa [needsEscape, or_iff_not_imp_left] using this
  have hnone {quote : Char} (h : longestRun quote s.toList = 0) : quote ∉ s.toList :=
    RunsWithin.not_mem (longestRun_le_iff.mp (Nat.le_of_eq h))
  unfold written
  extract_lets cs doubles singles lineEnds backslash control opened threeDoubles threeSingles
    oneLine several
  by_cases h1 : (!control && !backslash && decide (doubles = 0) && !lineEnds) = true
  · rw [if_pos h1]
    exact Or.inl rfl
  rw [if_neg h1]
  by_cases h2 : (!control && decide (singles = 0) && !lineEnds) = true
  · rw [if_pos h2]
    simp only [Bool.and_eq_true, Bool.not_eq_true', decide_eq_true_eq] at h2
    refine Or.inr (Or.inl ⟨rfl, ?_, ?_⟩)
    · -- an empty string would have been written between double quotes
      intro hnil
      refine h1 ?_
      simp [control, backslash, doubles, lineEnds, cs, hnil, longestRun]
    · intro c hc
      have hquote : c ≠ '\'' := fun h => hnone h2.1.2 (h ▸ hc)
      have hline : c ≠ '\n' := by
        rintro rfl
        exact absurd (List.contains_iff_mem.mpr hc) (Bool.eq_false_iff.mp h2.2)
      have hcontrol := (hneeds h2.1.1 c hc).resolve_right hline
      simp [isLiteral, hcontrol, hquote]
  rw [if_neg h2]
  by_cases h3 : (!control && !backslash && decide (doubles ≤ 2)) = true
  · rw [if_pos h3]
    exact Or.inr (Or.inr (Or.inl rfl))
  rw [if_neg h3]
  by_cases h4 : (!control && decide (singles ≤ 2)) = true
  · rw [if_pos h4]
    simp only [Bool.and_eq_true, Bool.not_eq_true', decide_eq_true_eq] at h4
    refine Or.inr (Or.inr (Or.inr ⟨rfl, longestRun_le_iff.mp h4.2, ?_⟩))
    intro c hc
    by_cases hquote : c = '\''
    · exact Or.inl hquote
    · rcases hneeds h4.1 c hc with hcontrol | hline
      · exact Or.inr (Or.inl (by simp [isLiteral, hcontrol, hquote]))
      · exact Or.inr (Or.inr hline)
  rw [if_neg h4]
  by_cases h5 : lineEnds = true
  · rw [if_pos h5]
    exact Or.inr (Or.inr (Or.inl rfl))
  · rw [if_neg h5]
    exact Or.inl rfl

private theorem threefoldBasicString_missed (h : cs.take 3 ≠ ['"', '"', '"']) :
    threefoldBasicString cs = .missed cs := by
  rw [threefoldBasicString]
  rintro rest rfl
  exact h rfl

private theorem threefoldLiteralString_missed (h : cs.take 3 ≠ ['\'', '\'', '\'']) :
    threefoldLiteralString cs = .missed cs := by
  rw [threefoldLiteralString]
  rintro rest rfl
  exact h rfl

/-- On one line no three double quotes open the string, not even an empty one. -/
theorem take_oneLine (cs : List Char) (h : rest.head? ≠ some '"') :
    ('"' :: (writtenBody false 0 0 cs ++ '"' :: rest)).take 3 ≠ ['"', '"', '"'] := by
  cases cs with
  | nil =>
      cases rest with
      | nil => simp [writtenBody]
      | cons c rest => simpa [writtenBody] using h
  | cons c cs =>
      unfold writtenBody
      by_cases hc : c = '"'
      · subst hc
        simp
      · have hhead := head?_writtenChar_append false hc (writtenBody false 0 0 cs ++ '"' :: rest)
        rw [if_neg hc, List.append_assoc]
        cases htail : writtenChar false c ++ (writtenBody false 0 0 cs ++ '"' :: rest) with
        | nil => simp
        | cons d tail =>
            rw [htail] at hhead
            simp only [List.take_succ_cons]
            intro heq
            injection heq with _ heq
            injection heq with heq _
            exact hhead (congrArg some heq)

/-- The reader takes back every string, up to what follows it. -/
theorem anyString_written (s : String) (hdouble : rest.head? ≠ some '"')
    (hsingle : rest.head? ≠ some '\'') : anyString (written s ++ rest) = .done s rest := by
  suffices h : (threefoldBasicString.orElse <| basicString.orElse <|
      threefoldLiteralString.orElse literalString) (written s ++ rest) = .done s.toList rest by
    rw [anyString, h]
    exact congrArg (Outcome.done · rest) String.ofList_toList
  rcases written_cases s with hone | ⟨hone, hne, hplain⟩ | hmany | ⟨hmany, hruns, hplain⟩
  · have htext : written s ++ rest = '"' :: (writtenBody false 0 0 s.toList ++ '"' :: rest) := by
      simp [hone]
    rw [htext, Scan.orElse_missed (threefoldBasicString_missed (take_oneLine _ hdouble)),
      Scan.orElse_done (basicString_written _ rest)]
  · have htext : written s ++ rest = '\'' :: (s.toList ++ '\'' :: rest) := by
      simp [hone]
    have hthree : ('\'' :: (s.toList ++ '\'' :: rest)).take 3 ≠ ['\'', '\'', '\''] := by
      cases hs : s.toList with
      | nil => exact absurd hs hne
      | cons c cs =>
          have hc := hplain c (hs ▸ List.mem_cons_self)
          intro heq
          injection heq with _ heq
          injection heq with heq _
          exact ne_of_holds hc rfl heq
    rw [htext, Scan.orElse_missed (threefoldBasicString_missed (by simp)),
      Scan.orElse_missed (p := basicString) rfl,
      Scan.orElse_missed (threefoldLiteralString_missed hthree), literalString_written hplain]
  · have htext : written s ++ rest = '"' :: '"' :: '"' ::
        (opening s.toList ++ (writtenBody true 2 0 s.toList ++ '"' :: '"' :: '"' :: rest)) := by
      simp [hmany]
    rw [htext, Scan.orElse_done (threefoldBasicString_written _ hdouble)]
  · have htext : written s ++ rest = '\'' :: '\'' :: '\'' ::
        (opening s.toList ++ (s.toList ++ '\'' :: '\'' :: '\'' :: rest)) := by
      simp [hmany]
    rw [htext, Scan.orElse_missed (threefoldBasicString_missed (by simp)),
      Scan.orElse_missed (p := basicString) rfl,
      Scan.orElse_done (threefoldLiteralString_written hruns hplain hsingle)]

end ImportResolution.Toml
