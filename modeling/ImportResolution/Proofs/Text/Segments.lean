/-
Cutting a text at a separator, and the texts that begin with another. Joining
pieces is undone by cutting as long as no piece holds the separator
(`splitOn_joinOn`), and a text that is put together around a separator is cut
there (`splitOn_append_sep`).
-/
import ImportResolution.Text.Segments

namespace ImportResolution.Text

variable {sep : Char}

-- ============================================================== cutting

theorem splitOn_of_not_mem {cs : List Char} (h : sep ∉ cs) : splitOn sep cs = [cs] := by
  induction cs with
  | nil => rfl
  | cons c rest ih =>
      rw [List.mem_cons, not_or] at h
      unfold splitOn
      rw [if_neg (Ne.symm h.1), ih h.2]

/-- A text is cut at each of its separators, so also at this one. -/
theorem splitOn_append_sep (a b : List Char) :
    splitOn sep (a ++ sep :: b) = splitOn sep a ++ splitOn sep b := by
  induction a with
  | nil =>
      show splitOn sep (sep :: b) = [] :: splitOn sep b
      rw [splitOn, if_pos rfl]
  | cons c rest ih =>
      rw [List.cons_append, splitOn, splitOn]
      by_cases hc : c = sep
      · rw [if_pos hc, if_pos hc, ih, List.cons_append]
      · rw [if_neg hc, if_neg hc, ih]
        cases hs : splitOn sep rest with
        | nil => exact absurd hs (splitOn_ne_nil sep rest)
        | cons piece pieces => rfl

/-- No piece holds the separator. -/
theorem not_mem_of_mem_splitOn {cs piece : List Char} (h : piece ∈ splitOn sep cs) :
    sep ∉ piece := by
  induction cs generalizing piece with
  | nil =>
      rw [splitOn, List.mem_singleton] at h
      rw [h]
      exact List.not_mem_nil
  | cons c rest ih =>
      unfold splitOn at h
      by_cases hc : c = sep
      · rw [if_pos hc, List.mem_cons] at h
        rcases h with rfl | h
        · exact List.not_mem_nil
        · exact ih h
      · rw [if_neg hc] at h
        cases hs : splitOn sep rest with
        | nil => exact absurd hs (splitOn_ne_nil sep rest)
        | cons first pieces =>
            rw [hs] at h ih
            simp only [List.mem_cons] at h
            rcases h with rfl | h
            · rw [List.mem_cons, not_or]
              exact ⟨Ne.symm hc, ih (List.mem_cons_self ..)⟩
            · exact ih (List.mem_cons_of_mem _ h)

/-- Pieces hold nothing that the text does not hold. -/
theorem mem_of_mem_splitOn {cs piece : List Char} (h : piece ∈ splitOn sep cs) {c : Char}
    (hc : c ∈ piece) : c ∈ cs := by
  induction cs generalizing piece with
  | nil =>
      rw [splitOn, List.mem_singleton] at h
      rw [h] at hc
      exact hc
  | cons d rest ih =>
      unfold splitOn at h
      by_cases hd : d = sep
      · rw [if_pos hd, List.mem_cons] at h
        rcases h with rfl | h
        · cases hc
        · exact List.mem_cons_of_mem _ (ih h hc)
      · rw [if_neg hd] at h
        cases hs : splitOn sep rest with
        | nil => exact absurd hs (splitOn_ne_nil sep rest)
        | cons first pieces =>
            rw [hs] at h ih
            simp only [List.mem_cons] at h
            rcases h with rfl | h
            · rcases List.mem_cons.mp hc with rfl | hc
              · exact List.mem_cons_self ..
              · exact List.mem_cons_of_mem _ (ih (List.mem_cons_self ..) hc)
            · exact List.mem_cons_of_mem _ (ih (List.mem_cons_of_mem _ h) hc)

/-- Where two texts meet, the last piece of one and the first of the other are one piece. -/
theorem splitOn_append {a b last first : List Char} {before after : List (List Char)}
    (ha : splitOn sep a = before ++ [last]) (hb : splitOn sep b = first :: after) :
    splitOn sep (a ++ b) = before ++ (last ++ first) :: after := by
  induction a generalizing before last with
  | nil =>
      have hempty : [] ++ [[]] = before ++ [last] := ha
      obtain ⟨rfl, hlast⟩ := List.append_inj' hempty rfl
      obtain rfl := List.head_eq_of_cons_eq hlast
      exact hb
  | cons c rest ih =>
      obtain ⟨before', last', hrest⟩ : ∃ before' last', splitOn sep rest = before' ++ [last'] :=
        ⟨_, _, (List.dropLast_concat_getLast (splitOn_ne_nil sep rest)).symm⟩
      rw [splitOn, hrest] at ha
      rw [List.cons_append, splitOn, ih hrest]
      by_cases hc : c = sep
      · rw [if_pos hc, ← List.cons_append] at ha
        obtain ⟨rfl, hlast⟩ := List.append_inj' ha rfl
        rw [if_pos hc, List.head_eq_of_cons_eq hlast, List.cons_append]
      · rw [if_neg hc] at ha
        rw [if_neg hc]
        cases before' with
        | nil =>
            have hone : [] ++ [c :: last'] = before ++ [last] := ha
            obtain ⟨rfl, hlast⟩ := List.append_inj' hone rfl
            rw [← List.head_eq_of_cons_eq hlast]
            rfl
        | cons piece pieces =>
            have hmore : ((c :: piece) :: pieces) ++ [last'] = before ++ [last] := ha
            obtain ⟨rfl, hlast⟩ := List.append_inj' hmore rfl
            rw [List.head_eq_of_cons_eq hlast]
            rfl

/-- Text without a separator goes to the last piece. -/
theorem splitOn_append_of_not_mem {a b : List Char} (hb : sep ∉ b) :
    ∃ before last, splitOn sep a = before ++ [last] ∧
      splitOn sep (a ++ b) = before ++ [last ++ b] := by
  have ha := (List.dropLast_concat_getLast (splitOn_ne_nil sep a)).symm
  exact ⟨_, _, ha, splitOn_append ha (splitOn_of_not_mem hb)⟩

-- ============================================================== joining

theorem joinOn_cons_cons (first second : List Char) (rest : List (List Char)) :
    joinOn sep (first :: second :: rest) = first ++ sep :: joinOn sep (second :: rest) :=
  rfl

theorem joinOn_append {a b : List (List Char)} (ha : a ≠ []) (hb : b ≠ []) :
    joinOn sep (a ++ b) = joinOn sep a ++ sep :: joinOn sep b := by
  induction a with
  | nil => exact absurd rfl ha
  | cons first rest ih =>
      cases rest with
      | nil =>
          obtain ⟨second, more, rfl⟩ := List.exists_cons_of_ne_nil hb
          rfl
      | cons second more =>
          rw [List.cons_append, List.cons_append, joinOn_cons_cons, ← List.cons_append,
            ih (List.cons_ne_nil _ _), joinOn_cons_cons, List.append_assoc, List.cons_append]

theorem mem_joinOn {pieces : List (List Char)} {c : Char} (h : c ∈ joinOn sep pieces) :
    c = sep ∨ ∃ piece ∈ pieces, c ∈ piece := by
  induction pieces with
  | nil => cases h
  | cons first rest ih =>
      cases rest with
      | nil => exact Or.inr ⟨first, List.mem_cons_self .., h⟩
      | cons second more =>
          rw [joinOn_cons_cons, List.mem_append, List.mem_cons] at h
          rcases h with h | h | h
          · exact Or.inr ⟨first, List.mem_cons_self .., h⟩
          · exact Or.inl h
          · rcases ih h with h | ⟨piece, hp, hc⟩
            · exact Or.inl h
            · exact Or.inr ⟨piece, List.mem_cons_of_mem _ hp, hc⟩

/-- A text of pieces that are not empty is no shorter than their number. -/
theorem length_le_length_joinOn {pieces : List (List Char)} (h : ∀ piece ∈ pieces, piece ≠ []) :
    pieces.length ≤ (joinOn sep pieces).length := by
  induction pieces with
  | nil => exact Nat.zero_le _
  | cons first rest ih =>
      have hfirst : 0 < first.length := List.length_pos_iff.mpr (h first (List.mem_cons_self ..))
      have hrest := ih fun piece hp => h piece (List.mem_cons_of_mem _ hp)
      cases rest with
      | nil => exact hfirst
      | cons second more =>
          have hlength : (joinOn sep (first :: second :: more)).length
              = first.length + ((joinOn sep (second :: more)).length + 1) := by
            rw [joinOn_cons_cons, List.length_append, List.length_cons]
          rw [hlength, List.length_cons]
          omega

theorem toList_append_slash (before after : String) :
    (before ++ "/" ++ after).toList = before.toList ++ '/' :: after.toList := by
  rw [String.toList_append, String.toList_append, List.append_assoc]
  rfl

/-- Pieces that do not hold the separator are found again after joining. -/
theorem splitOn_joinOn {pieces : List (List Char)} (hne : pieces ≠ [])
    (h : ∀ piece ∈ pieces, sep ∉ piece) : splitOn sep (joinOn sep pieces) = pieces := by
  induction pieces with
  | nil => exact absurd rfl hne
  | cons first rest ih =>
      have hfirst := splitOn_of_not_mem (h first (List.mem_cons_self ..))
      cases rest with
      | nil => exact hfirst
      | cons second more =>
          rw [joinOn_cons_cons, splitOn_append_sep, hfirst,
            ih (List.cons_ne_nil _ _) fun piece hp => h piece (List.mem_cons_of_mem _ hp)]
          rfl

-- ================================================== the ends of a text

theorem afterStart?_eq_some_iff {start cs rest : List Char} :
    afterStart? start cs = some rest ↔ cs = start ++ rest := by
  induction start generalizing cs with
  | nil =>
      rw [afterStart?, List.nil_append, Option.some.injEq]
  | cons c more ih =>
      cases cs with
      | nil => simp [afterStart?]
      | cons d others =>
          unfold afterStart?
          by_cases hc : c = d
          · rw [if_pos hc, ih, hc, List.cons_append, List.cons_inj_right]
          · rw [if_neg hc]
            constructor
            · intro h
              cases h
            · intro h
              exact absurd (List.cons_eq_cons.mp h).1.symm hc

theorem startsWith_iff {s start : String} :
    startsWith s start = true ↔ start.toList <+: s.toList := by
  unfold startsWith
  rw [Option.isSome_iff_exists]
  constructor
  · rintro ⟨rest, h⟩
    exact ⟨rest, (afterStart?_eq_some_iff.mp h).symm⟩
  · rintro ⟨rest, h⟩
    exact ⟨rest, afterStart?_eq_some_iff.mpr h.symm⟩

theorem endsWith_iff {s ending : String} :
    endsWith s ending = true ↔ ending.toList <:+ s.toList := by
  unfold endsWith dropEnd?
  rw [Option.isSome_map, Option.isSome_iff_exists, ← List.reverse_prefix]
  constructor
  · rintro ⟨rest, h⟩
    exact ⟨rest, (afterStart?_eq_some_iff.mp h).symm⟩
  · rintro ⟨rest, h⟩
    exact ⟨rest, afterStart?_eq_some_iff.mpr h.symm⟩

theorem exists_append_of_startsWith {s start : String} (h : startsWith s start = true) :
    ∃ rest, s = start ++ rest := by
  obtain ⟨rest, hrest⟩ := startsWith_iff.mp h
  refine ⟨String.ofList rest, String.toList_inj.mp ?_⟩
  rw [String.toList_append, String.toList_ofList, hrest]

theorem exists_append_of_endsWith {s ending : String} (h : endsWith s ending = true) :
    ∃ rest, s = rest ++ ending := by
  obtain ⟨rest, hrest⟩ := endsWith_iff.mp h
  refine ⟨String.ofList rest, String.toList_inj.mp ?_⟩
  rw [String.toList_append, String.toList_ofList, hrest]

theorem dropStart?_eq_some_iff {s start rest : String} :
    dropStart? s start = some rest ↔ s = start ++ rest := by
  rw [dropStart?, Option.map_eq_some_iff]
  constructor
  · rintro ⟨cs, hcs, rfl⟩
    rw [← String.toList_inj, String.toList_append, String.toList_ofList]
    exact afterStart?_eq_some_iff.mp hcs
  · rintro rfl
    exact ⟨rest.toList, afterStart?_eq_some_iff.mpr String.toList_append, String.ofList_toList⟩

theorem dropEnd?_eq_some_iff {s ending rest : String} :
    dropEnd? s ending = some rest ↔ s = rest ++ ending := by
  rw [dropEnd?, Option.map_eq_some_iff]
  constructor
  · rintro ⟨cs, hcs, rfl⟩
    rw [← String.toList_inj, String.toList_append, String.toList_ofList, ← List.reverse_inj,
      List.reverse_append, List.reverse_reverse]
    exact afterStart?_eq_some_iff.mp hcs
  · rintro rfl
    refine ⟨rest.toList.reverse, afterStart?_eq_some_iff.mpr ?_, ?_⟩
    · rw [String.toList_append, List.reverse_append]
    · rw [List.reverse_reverse, String.ofList_toList]

/-- A text without the start is left alone. -/
theorem withoutStart_of_not_startsWith {s start : String} (h : startsWith s start = false) :
    withoutStart s start = s := by
  have hnone : afterStart? start.toList s.toList = none :=
    Option.isNone_iff_eq_none.mp (Option.isSome_eq_false_iff.mp h)
  rw [withoutStart, dropStart?, hnone, Option.map_none, Option.getD_none]

-- ============================================== the first occurrence

theorem cutAt?_eq_none_iff {c : Char} {cs : List Char} : cutAt? c cs = none ↔ c ∉ cs := by
  induction cs with
  | nil => exact iff_of_true rfl List.not_mem_nil
  | cons d rest ih =>
      rw [List.mem_cons, not_or, cutAt?]
      by_cases hd : d = c
      · rw [if_pos hd]
        exact iff_of_false nofun fun h => h.1 hd.symm
      · rw [if_neg hd, Option.map_eq_none_iff, ih]
        exact (and_iff_right (Ne.symm hd)).symm

/-- A text is cut at a character that stands nowhere before. -/
theorem cutAt?_eq_some_iff {c : Char} {cs before after : List Char} :
    cutAt? c cs = some (before, after) ↔ cs = before ++ c :: after ∧ c ∉ before := by
  induction cs generalizing before with
  | nil =>
      refine iff_of_false nofun fun h => ?_
      cases before <;> cases h.1
  | cons d rest ih =>
      rw [cutAt?]
      by_cases hd : d = c
      · rw [if_pos hd]
        cases before with
        | nil => simp [hd, eq_comm]
        | cons b more =>
            refine iff_of_false nofun fun h => h.2 ?_
            rw [← (List.cons_eq_cons.mp h.1).1, hd]
            exact List.mem_cons_self ..
      · rw [if_neg hd, Option.map_eq_some_iff]
        constructor
        · rintro ⟨⟨more, after'⟩, hcut, heq⟩
          obtain ⟨rfl, rfl⟩ := Prod.mk.inj heq
          obtain ⟨hrest, hfirst⟩ := ih.mp hcut
          rw [List.cons_append, ← hrest, List.mem_cons, not_or]
          exact ⟨rfl, Ne.symm hd, hfirst⟩
        · rintro ⟨hcs, hfirst⟩
          cases before with
          | nil => exact absurd (List.cons_eq_cons.mp hcs).1 hd
          | cons b more =>
              obtain ⟨rfl, hrest⟩ := List.cons_eq_cons.mp hcs
              rw [List.mem_cons, not_or] at hfirst
              exact ⟨(more, after), ih.mpr ⟨hrest, hfirst.2⟩, rfl⟩

-- ===================================================== runs at the start

theorem dropWhile_of_head {p : Char → Bool} {cs : List Char}
    (h : ∀ c, cs.head? = some c → p c = false) : cs.dropWhile p = cs := by
  cases cs with
  | nil => rfl
  | cons c cs => rw [List.dropWhile_cons, if_neg (by rw [h c rfl]; exact Bool.false_ne_true)]

theorem takeWhile_of_head {p : Char → Bool} {cs : List Char}
    (h : ∀ c, cs.head? = some c → p c = false) : cs.takeWhile p = [] := by
  cases cs with
  | nil => rfl
  | cons c cs => rw [List.takeWhile_cons, if_neg (by rw [h c rfl]; exact Bool.false_ne_true)]

end ImportResolution.Text
