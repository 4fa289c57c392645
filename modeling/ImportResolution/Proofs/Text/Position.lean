/-
Positions of a reader and byte offsets. A place in a text stands behind some of its
characters; the last line of these is the part of the place's own line that lies before it
(`positionAfter_eq`). The lines before that one, each with its line end, and this part take
the bytes up to the place (`eq_ended_append`), so the line and the column lead back to the
offset. More characters before a place give it a later position (`positionAfter_lt_append`),
and a text has only one way to be cut at an offset, so positions stand in the order of the
offsets.
-/
import ImportResolution.Proofs.Text.Slices
import ImportResolution.Text.Position
import Mathlib.Algebra.Ring.Nat
import Mathlib.Data.List.Induction
import Mathlib.Data.Prod.Lex

namespace ImportResolution.Text

open String.Pos.Raw (isValid_iff_exists_append)

variable {s : String} {offset offset' : Nat} {before last : List Char} {earlier : List (List Char)}

-- ================================================================ sizes

theorem byteSize_append (a b : List Char) : byteSize (a ++ b) = byteSize a + byteSize b := by
  induction a with
  | nil => exact (Nat.zero_add _).symm
  | cons c rest ih =>
      show c.utf8Size + byteSize (rest ++ b) = c.utf8Size + byteSize rest + byteSize b
      rw [ih, Nat.add_assoc]

theorem utf8ByteSize_ofList (cs : List Char) : (String.ofList cs).utf8ByteSize = byteSize cs := by
  induction cs with
  | nil => rfl
  | cons c rest ih =>
      rw [String.ofList_cons, String.utf8ByteSize_append, String.utf8ByteSize_singleton, ih]
      rfl

theorem byteSize_toList (s : String) : byteSize s.toList = s.utf8ByteSize := by
  rw [← utf8ByteSize_ofList, String.ofList_toList]

/-- Only no characters take no bytes. -/
theorem byteSize_pos {cs : List Char} (h : cs ≠ []) : 0 < byteSize cs := by
  obtain ⟨c, rest, rfl⟩ := List.exists_cons_of_ne_nil h
  exact Nat.lt_of_lt_of_le c.utf8Size_pos (Nat.le_add_right _ _)

-- ============================================================== offsets

/-- At the size of some first characters the text is cut behind them. -/
theorem beforeOffset_byteSize (a b : List Char) : beforeOffset (byteSize a) (a ++ b) = a := by
  induction a with
  | nil =>
      cases b with
      | nil => rfl
      | cons c rest => exact if_neg (Nat.not_le.mpr c.utf8Size_pos)
  | cons c rest ih =>
      show beforeOffset (c.utf8Size + byteSize rest) (c :: (rest ++ b)) = c :: rest
      rw [beforeOffset, if_pos (Nat.le_add_right _ _), Nat.add_sub_cancel_left, ih]

/-- Past the end the text is cut at its end. -/
theorem beforeOffset_of_le {cs : List Char} (h : byteSize cs ≤ offset) :
    beforeOffset offset cs = cs := by
  induction cs generalizing offset with
  | nil => rfl
  | cons c rest ih =>
      have hsize : c.utf8Size + byteSize rest ≤ offset := h
      rw [beforeOffset, if_pos (by omega), ih (by omega)]

/-- The byte position that an offset means: past the end it means the end. -/
def clamped (s : String) (offset : Nat) : Nat :=
  min offset s.utf8ByteSize

/-- The byte position that an offset means does not lie inside a character. -/
def OnBoundary (s : String) (offset : Nat) : Prop :=
  (⟨clamped s offset⟩ : String.Pos.Raw).IsValid s

instance (s : String) (offset : Nat) : Decidable (OnBoundary s offset) :=
  inferInstanceAs (Decidable (String.Pos.Raw.IsValid _ _))

theorem lineColumn_clamped (s : String) (offset : Nat) :
    lineColumn s (clamped s offset) = lineColumn s offset := by
  rcases Nat.le_total offset s.utf8ByteSize with hle | hle
  · rw [clamped, Nat.min_eq_left hle]
  · have hend := (byteSize_toList s).le
    rw [clamped, Nat.min_eq_right hle, lineColumn, lineColumn, beforeOffset_of_le hend,
      beforeOffset_of_le (hend.trans hle)]

/-- An offset between two characters cuts the text in two. -/
theorem OnBoundary.exists_cut (h : OnBoundary s offset) :
    ∃ before after, s = before ++ after ∧ before.utf8ByteSize = clamped s offset ∧
      lineColumn s offset = positionAfter before.toList := by
  obtain ⟨before, after, hs, hplace⟩ := isValid_iff_exists_append.mp h
  have hsize : before.utf8ByteSize = clamped s offset := (congrArg (·.byteIdx) hplace).symm
  refine ⟨before, after, hs, hsize, ?_⟩
  rw [← lineColumn_clamped, ← hsize, lineColumn, hs, String.toList_append, ← byteSize_toList,
    beforeOffset_byteSize]

-- ================================================================ lines

/-- The lines of a text: what stands between the line ends. -/
def lines (s : String) : List String :=
  pieces '\n' s

/-- The byte position where a line starts, counted from line 1: behind the lines before it,
each with a line end of one byte. -/
def lineStart (s : String) (line : Nat) : Nat :=
  (((lines s).take (line - 1)).map fun l => l.utf8ByteSize + 1).sum

/-- The line of a place is the last one before it, and the column tells how much of that
line lies before it. -/
theorem positionAfter_eq (before : List Char) :
    ∃ earlier last, splitOn '\n' before = earlier ++ [last] ∧
      positionAfter before = (earlier.length + 1, byteSize last + 1) := by
  -- the last character decides whether a new line is begun
  induction before using List.reverseRecOn with
  | nil => exact ⟨[], [], rfl, rfl⟩
  | append_singleton rest c ih =>
      obtain ⟨earlier, last, hcut, hposition⟩ := ih
      obtain ⟨hline, hcolumn⟩ := Prod.mk.inj hposition
      rw [positionAfter, List.count_append, List.reverse_append, List.reverse_singleton,
        List.singleton_append, List.takeWhile_cons]
      by_cases hc : c = '\n'
      · subst hc
        refine ⟨earlier ++ [last], [], ?_, ?_⟩
        · rw [splitOn_append_sep, hcut]
          rfl
        · rw [List.count_singleton_self, hline, List.length_append]
          rfl
      · have hstays : '\n' ∉ [c] := by simpa using Ne.symm hc
        have hkept : decide (c ≠ '\n') = true := decide_eq_true hc
        have hsize : byteSize (c :: (rest.reverse.takeWhile (· ≠ '\n')))
            = byteSize last + byteSize [c] := by
          have h : byteSize [c] = c.utf8Size := rfl
          show c.utf8Size + byteSize (rest.reverse.takeWhile (· ≠ '\n')) = _
          omega
        refine ⟨earlier, last ++ [c], splitOn_append hcut (splitOn_of_not_mem hstays), ?_⟩
        rw [if_pos hkept, List.count_singleton, if_neg (by simpa using hc), Nat.add_zero, hline,
          byteSize_append, hsize]

/-- What stands before the last line: the earlier lines, each with its line end. -/
def ended (earlier : List (List Char)) : List Char :=
  earlier.flatMap (· ++ ['\n'])

theorem byteSize_ended (earlier : List (List Char)) :
    byteSize (ended earlier) = (earlier.map fun line => byteSize line + 1).sum := by
  induction earlier with
  | nil => rfl
  | cons line rest ih =>
      have hend : byteSize ['\n'] = 1 := rfl
      show byteSize ((line ++ ['\n']) ++ ended rest) = _
      rw [byteSize_append, byteSize_append, hend, ih, List.map_cons, List.sum_cons]

/-- The lines of some characters make them up. -/
theorem eq_ended_append (h : splitOn '\n' before = earlier ++ [last]) :
    before = ended earlier ++ last := by
  rw [← joinOn_splitOn '\n' before, h]
  clear h
  induction earlier with
  | nil => rfl
  | cons line rest ih =>
      have hrest : rest ++ [last] ≠ [] := by simp
      show joinOn '\n' ([line] ++ (rest ++ [last])) = line ++ ['\n'] ++ ended rest ++ last
      rw [joinOn_append (List.cons_ne_nil _ _) hrest, ih]
      simp [joinOn]

/-- The lines of a text begin with those before a place, the last of which goes on behind it. -/
theorem lines_append {start : String} (h : splitOn '\n' start.toList = earlier ++ [last])
    (rest : String) :
    ∃ more others, lines (start ++ rest)
      = earlier.map String.ofList ++ String.ofList (last ++ more) :: others := by
  obtain ⟨more, others, hrest⟩ := List.exists_cons_of_ne_nil (splitOn_ne_nil '\n' rest.toList)
  refine ⟨more, others.map String.ofList, ?_⟩
  rw [lines, pieces, String.toList_append, splitOn_append h hrest, List.map_append, List.map_cons]

-- ============================================================ positions

/-- A position tells a byte position of a text: some line starts there or before, the column
tells how many bytes before, and no line end lies between. -/
structure PointsAt (s : String) (position : Nat × Nat) (place : Nat) : Prop where
  line_pos : 1 ≤ position.1
  line_le : position.1 ≤ (lines s).length
  column_pos : 1 ≤ position.2
  lineStart_add : lineStart s position.1 + (position.2 - 1) = place
  same_line : ∃ part, IsSlice s (lineStart s position.1) place part ∧ '\n' ∉ part.toList

/-- The position behind some first characters of a text points at their size. -/
theorem pointsAt_positionAfter (start rest : String) :
    PointsAt (start ++ rest) (positionAfter start.toList) start.utf8ByteSize := by
  obtain ⟨earlier, last, hcut, hposition⟩ := positionAfter_eq start.toList
  obtain ⟨more, others, hlines⟩ := lines_append hcut rest
  have hstart : start = String.ofList (ended earlier) ++ String.ofList last := by
    rw [← String.ofList_append, ← eq_ended_append hcut, String.ofList_toList]
  have hline : lineStart (start ++ rest) (earlier.length + 1)
      = (String.ofList (ended earlier)).utf8ByteSize := by
    have htake : (lines (start ++ rest)).take (earlier.length + 1 - 1)
        = earlier.map String.ofList := by
      rw [hlines, Nat.add_sub_cancel, ← List.length_map (f := String.ofList), List.take_left]
    rw [lineStart, htake, List.map_map, utf8ByteSize_ofList, byteSize_ended]
    exact congrArg List.sum (List.map_congr_left fun line _ =>
      congrArg (· + 1) (utf8ByteSize_ofList line))
  rw [hposition]
  refine ⟨Nat.succ_pos _, ?_, Nat.succ_pos _, ?_, String.ofList last, ?_, ?_⟩
  · rw [hlines]
    simp
  · rw [hline, Nat.add_sub_cancel]
    conv_rhs => rw [hstart]
    rw [String.utf8ByteSize_append, utf8ByteSize_ofList last]
  · have hslice := isSlice_between (String.ofList (ended earlier)) (String.ofList last) rest
    rw [← hstart, String.utf8ByteSize_append, Nat.add_sub_cancel] at hslice
    rw [hline]
    exact hslice
  · rw [String.toList_ofList]
    exact not_mem_of_mem_splitOn (hcut ▸ List.mem_append_right _ List.mem_cons_self)

/-- More characters before a place put it further on in its line or into a later line. -/
theorem positionAfter_lt_append {more : List Char} (h : more ≠ []) :
    toLex (positionAfter before) < toLex (positionAfter (before ++ more)) := by
  rw [Prod.Lex.toLex_lt_toLex]
  by_cases hend : '\n' ∈ more
  · have hcount : 0 < more.count '\n' := List.count_pos_iff.mpr hend
    refine Or.inl ?_
    show before.count '\n' + 1 < (before ++ more).count '\n' + 1
    rw [List.count_append]
    omega
  · have hsize := byteSize_pos h
    obtain ⟨earlier, last, hcut, hposition⟩ := positionAfter_eq before
    obtain ⟨earlier', last', hcut', hposition'⟩ := positionAfter_eq (before ++ more)
    rw [splitOn_append hcut (splitOn_of_not_mem hend)] at hcut'
    obtain ⟨rfl, hlast⟩ := List.append_inj' hcut' rfl
    rw [hposition, hposition', ← List.head_eq_of_cons_eq hlast, byteSize_append]
    exact Or.inr ⟨rfl, by omega⟩

/-- Offsets between characters stand in the order of their positions. -/
theorem OnBoundary.lineColumn_lt (h : OnBoundary s offset) (h' : OnBoundary s offset')
    (hlt : clamped s offset < clamped s offset') :
    toLex (lineColumn s offset) < toLex (lineColumn s offset') := by
  obtain ⟨start, rest, hs, hsize, hposition⟩ := h.exists_cut
  obtain ⟨start', rest', hs', hsize', hposition'⟩ := h'.exists_cut
  rw [hposition, hposition']
  have hboth : start.toList ++ rest.toList = start'.toList ++ rest'.toList := by
    rw [← String.toList_append, ← String.toList_append, ← hs, hs']
  rw [← hsize, ← hsize', ← byteSize_toList, ← byteSize_toList] at hlt
  rcases List.append_eq_append_iff.mp hboth with ⟨more, hmore, -⟩ | ⟨more, hmore, -⟩
  · rw [hmore] at hlt ⊢
    refine positionAfter_lt_append fun hnil => ?_
    rw [hnil, List.append_nil] at hlt
    exact Nat.lt_irrefl _ hlt
  · rw [hmore, byteSize_append] at hlt
    exact absurd hlt (by omega)

/-- The position of an offset points back at it, and the positions of two offsets of a text
are the same, or stand in order, exactly if the offsets are or do; offsets past the end mean
the end. -/
theorem lineColumn_points_back (h : OnBoundary s offset) :
    PointsAt s (lineColumn s offset) (clamped s offset) ∧
      ∀ offset', OnBoundary s offset' →
        (lineColumn s offset = lineColumn s offset' ↔ clamped s offset = clamped s offset') ∧
        (toLex (lineColumn s offset) < toLex (lineColumn s offset')
          ↔ clamped s offset < clamped s offset') := by
  obtain ⟨start, rest, hs, hsize, hposition⟩ := h.exists_cut
  refine ⟨?_, fun offset' h' => ?_⟩
  · rw [hposition, ← hsize, hs]
    exact pointsAt_positionAfter start rest
  · rcases Nat.lt_trichotomy (clamped s offset) (clamped s offset') with hlt | heq | hgt
    · have hbefore := h.lineColumn_lt h' hlt
      exact ⟨iff_of_false (fun he => hbefore.ne (congrArg toLex he)) hlt.ne,
        iff_of_true hbefore hlt⟩
    · have hsame : lineColumn s offset = lineColumn s offset' := by
        rw [← lineColumn_clamped, heq, lineColumn_clamped]
      rw [hsame, heq]
      exact ⟨iff_of_true rfl rfl, iff_of_false (lt_irrefl _) (lt_irrefl _)⟩
    · have hbehind := h'.lineColumn_lt h hgt
      exact ⟨iff_of_false (fun he => hbehind.ne' (congrArg toLex he)) hgt.ne',
        iff_of_false hbehind.asymm hgt.asymm⟩

/-- Behind a character of two bytes in the second line, and far past the end. -/
theorem lineColumn_points_back_past_end :
    OnBoundary "α\nβγ\n" 5 ∧ OnBoundary "α\nβγ\n" 20 ∧
      PointsAt "α\nβγ\n" (2, 3) 5 ∧ lineColumn "α\nβγ\n" 20 = (3, 1) ∧
      clamped "α\nβγ\n" 5 < clamped "α\nβγ\n" 20 := by
  have h : OnBoundary "α\nβγ\n" 5 := by decide
  have h' : OnBoundary "α\nβγ\n" 20 := by decide
  have hposition : lineColumn "α\nβγ\n" 5 = (2, 3) := by decide
  have hposition' : lineColumn "α\nβγ\n" 20 = (3, 1) := by decide
  obtain ⟨hpoints, hothers⟩ := lineColumn_points_back h
  have horder := (hothers 20 h').2
  rw [hposition, hposition'] at horder
  rw [hposition] at hpoints
  exact ⟨h, h', hpoints, hposition', horder.mp (by decide)⟩

end ImportResolution.Text
