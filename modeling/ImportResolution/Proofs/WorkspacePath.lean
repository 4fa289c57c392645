/-
The normal form of workspace paths. A path that has been walked consists of
names, after a leading run of `..` that only a path below no root can have
(`Walked`). Such segments are found again when they are written and read
(`walked_written`), so bringing a path to normal form a second time changes
nothing, and taking the directory of a path takes its last segment off
(`directory_written`).
-/
import ImportResolution.Proofs.Text.Segments
import ImportResolution.WorkspacePath

namespace ImportResolution.WorkspacePath

open Text

-- ============================================================ segments

/-- A segment that walking a path keeps: it is neither empty nor `.`, and holds
no separator. -/
structure IsProper (segment : String) : Prop where
  ne_empty : segment ≠ ""
  ne_current : segment ≠ "."
  no_slash : '/' ∉ segment.toList
  no_backslash : '\\' ∉ segment.toList

/-- Segments of a normal form: names, after a run of `..` where there is no
root. -/
def Walked (rooted : Bool) (parts : List String) : Prop :=
  ∃ (climbs : Nat) (names : List String), parts = List.replicate climbs ".." ++ names ∧
    (∀ name ∈ names, IsProper name ∧ name ≠ "..") ∧ (rooted = true → climbs = 0)

variable {rooted : Bool} {parts : List String}

theorem isProper_up : IsProper ".." := by
  constructor <;> decide

theorem walked_nil (rooted : Bool) : Walked rooted [] :=
  ⟨0, [], rfl, fun _ h => absurd h List.not_mem_nil, fun _ => rfl⟩

theorem Walked.isProper (h : Walked rooted parts) : ∀ segment ∈ parts, IsProper segment := by
  obtain ⟨climbs, names, rfl, hnames, -⟩ := h
  intro segment hs
  rcases List.mem_append.mp hs with hs | hs
  · rw [List.eq_of_mem_replicate hs]
    exact isProper_up
  · exact (hnames segment hs).1

/-- The first segments of a normal form are one. -/
theorem Walked.take (h : Walked rooted parts) (k : Nat) : Walked rooted (parts.take k) := by
  obtain ⟨climbs, names, rfl, hnames, hrooted⟩ := h
  refine ⟨min k climbs, names.take (k - climbs), ?_, ?_, fun hr => ?_⟩
  · rw [List.take_append, List.take_replicate, List.length_replicate]
  · exact fun name hn => hnames name (List.mem_of_mem_take hn)
  · rw [hrooted hr, Nat.min_zero]

theorem Walked.dropLast {last : String} (h : Walked rooted (parts ++ [last])) :
    Walked rooted parts := by
  have ht := h.take parts.length
  rw [List.take_left] at ht
  exact ht

/-- A normal form that ends in `..` climbs and does nothing else. -/
theorem Walked.climbs (h : Walked rooted (parts ++ [".."])) :
    rooted = false ∧ ∃ n, parts ++ [".."] = List.replicate n ".." := by
  obtain ⟨climbs, names, heq, hnames, hrooted⟩ := h
  rcases List.eq_nil_or_concat names with rfl | ⟨init, last, rfl⟩
  · rw [List.append_nil] at heq
    refine ⟨?_, climbs, heq⟩
    cases rooted with
    | false => rfl
    | true =>
        rw [hrooted rfl] at heq
        simp at heq
  · rw [List.concat_eq_append, ← List.append_assoc] at heq
    have hlast := (List.append_inj' heq rfl).2
    have hne := (hnames last (by simp)).2
    exact absurd (List.head_eq_of_cons_eq hlast).symm hne

-- ============================================================= walking

theorem backslash_not_mem_slashed (p : String) : '\\' ∉ (slashed p).toList := by
  intro hmem
  rw [slashed, String.toList_ofList] at hmem
  obtain ⟨c, -, hc⟩ := List.mem_map.mp hmem
  unfold forward at hc
  split at hc
  · exact absurd hc (by decide)
  · next hne => exact hne hc

/-- The segments of any path hold no separator. -/
theorem mem_segments {p segment : String} (h : segment ∈ segments p) :
    '/' ∉ segment.toList ∧ '\\' ∉ segment.toList := by
  obtain ⟨piece, hpiece, rfl⟩ := List.mem_map.mp h
  rw [String.toList_ofList]
  refine ⟨not_mem_of_mem_splitOn hpiece, fun hc => ?_⟩
  exact backslash_not_mem_slashed p (mem_of_mem_splitOn hpiece hc)

/-- One segment more keeps the segments so far those of a normal form. -/
theorem walked_step {kept : List String} (h : Walked rooted kept.reverse) {segment : String}
    (hs : '/' ∉ segment.toList ∧ '\\' ∉ segment.toList) :
    Walked rooted (step rooted kept segment).reverse := by
  unfold step
  split
  · exact h
  · next hvoid =>
    rw [not_or] at hvoid
    split
    · next hup =>
      cases kept with
      | nil =>
          cases rooted with
          | true => exact walked_nil true
          | false => exact ⟨1, [], rfl, fun _ h => absurd h List.not_mem_nil, fun h => by cases h⟩
      | cons last before =>
          rw [List.reverse_cons] at h
          simp only
          split
          · exact h.dropLast
          · next hlast =>
            rw [ne_eq, Decidable.not_not] at hlast
            subst hlast
            obtain ⟨rfl, n, hn⟩ := h.climbs
            refine ⟨n + 1, [], ?_, fun _ h => absurd h List.not_mem_nil, fun h => by cases h⟩
            simp only [Bool.false_eq_true, if_false, List.reverse_cons, hn, List.append_nil]
            exact List.replicate_succ'.symm
    · next hup =>
      obtain ⟨climbs, names, hkept, hnames, hrooted⟩ := h
      refine ⟨climbs, names ++ [segment], ?_, fun name hn => ?_, hrooted⟩
      · rw [List.reverse_cons, hkept, List.append_assoc]
      · rcases List.mem_append.mp hn with hn | hn
        · exact hnames name hn
        · rw [List.mem_singleton] at hn
          subst hn
          exact ⟨⟨hvoid.1, hvoid.2, hs.1, hs.2⟩, hup⟩

theorem walked_foldl {kept : List String} (h : Walked rooted kept.reverse)
    {more : List String} (hs : ∀ segment ∈ more, '/' ∉ segment.toList ∧ '\\' ∉ segment.toList) :
    Walked rooted (more.foldl (step rooted) kept).reverse := by
  induction more generalizing kept with
  | nil => exact h
  | cons segment rest ih =>
      exact ih (walked_step h (hs segment (List.mem_cons_self ..)))
        fun s hs' => hs s (List.mem_cons_of_mem _ hs')

/-- What remains of any path is a normal form. -/
theorem walked_walked (p : String) : Walked (isRooted p) (walked p) :=
  walked_foldl (walked_nil _) fun _ hs => mem_segments hs

-- ==================================================== writing and reading

/-- Climbing from where a path has climbed to so far. -/
theorem foldl_step_climbs (n m : Nat) :
    (List.replicate n "..").foldl (step false) (List.replicate m "..")
      = List.replicate (m + n) ".." := by
  induction n generalizing m with
  | zero => rfl
  | succ n ih =>
      have hone : step false (List.replicate m "..") ".." = List.replicate (m + 1) ".." := by
        cases m with
        | zero => rfl
        | succ m => rfl
      rw [List.replicate_succ, List.foldl_cons, hone, ih]
      congr 1
      omega

/-- Names are kept one after the other. -/
theorem foldl_step_names {names : List String} (h : ∀ name ∈ names, IsProper name ∧ name ≠ "..")
    (kept : List String) : names.foldl (step rooted) kept = names.reverse ++ kept := by
  induction names generalizing kept with
  | nil => rfl
  | cons name rest ih =>
      obtain ⟨hproper, hup⟩ := h name (List.mem_cons_self ..)
      have hone : step rooted kept name = name :: kept := by
        unfold step
        rw [if_neg (by rw [not_or]; exact ⟨hproper.ne_empty, hproper.ne_current⟩), if_neg hup]
      rw [List.foldl_cons, hone, ih fun n hn => h n (List.mem_cons_of_mem _ hn),
        List.reverse_cons, List.append_assoc]
      rfl

/-- Walking a normal form changes nothing. -/
theorem Walked.foldl_step (h : Walked rooted parts) :
    (parts.foldl (step rooted) []).reverse = parts := by
  obtain ⟨climbs, names, rfl, hnames, hrooted⟩ := h
  have hclimbs : (List.replicate climbs "..").foldl (step rooted) []
      = List.replicate climbs ".." := by
    cases rooted with
    | false =>
        have h := foldl_step_climbs climbs 0
        rw [Nat.zero_add] at h
        exact h
    | true =>
        rw [hrooted rfl]
        rfl
  rw [List.foldl_append, hclimbs, foldl_step_names hnames, List.reverse_append,
    List.reverse_reverse, List.reverse_replicate]

theorem joined_toList (sep : Char) (parts : List String) :
    (joined sep parts).toList = joinOn sep (parts.map String.toList) :=
  String.toList_ofList

theorem pieces_joined (hne : parts ≠ []) (h : ∀ segment ∈ parts, '/' ∉ segment.toList) :
    pieces '/' (joined '/' parts) = parts := by
  unfold pieces
  rw [joined_toList, splitOn_joinOn (by simpa using hne)]
  · rw [List.map_map]
    exact List.map_id'' (fun s => String.ofList_toList) parts
  · intro piece hp
    obtain ⟨segment, hs, rfl⟩ := List.mem_map.mp hp
    exact h segment hs

theorem slashed_of_no_backslash {p : String} (h : '\\' ∉ p.toList) : slashed p = p := by
  have hmap : p.toList.map forward = p.toList := by
    refine (List.map_congr_left fun c hc => ?_).trans (List.map_id _)
    unfold forward
    rw [if_neg fun (heq : c = '\\') => h (heq ▸ hc)]
    rfl
  rw [slashed, hmap, String.ofList_toList]

theorem Walked.no_backslash (h : Walked rooted parts) :
    '\\' ∉ (joined '/' parts).toList := by
  rw [joined_toList]
  intro hc
  rcases mem_joinOn hc with hc | ⟨piece, hp, hc⟩
  · exact absurd hc (by decide)
  · obtain ⟨segment, hs, rfl⟩ := List.mem_map.mp hp
    exact (h.isProper segment hs).no_backslash hc

/-- What is written below no root does not start at the root. -/
theorem Walked.not_startsWith_slash {first : String} {rest : List String}
    (h : Walked rooted (first :: rest)) : startsWith (joined '/' (first :: rest)) "/" = false := by
  have hproper := h.isProper first (List.mem_cons_self ..)
  rw [← Bool.not_eq_true, startsWith_iff, joined_toList]
  cases hfirst : first.toList with
  | nil => exact absurd (String.toList_eq_nil_iff.mp hfirst) hproper.ne_empty
  | cons c cs =>
      have hslash := hproper.no_slash
      rw [hfirst, List.mem_cons, not_or] at hslash
      rintro ⟨more, hmore⟩
      rw [List.map_cons, hfirst] at hmore
      cases rest with
      | nil => exact hslash.1 (List.head_eq_of_cons_eq hmore)
      | cons second others => exact hslash.1 (List.head_eq_of_cons_eq hmore)

/-- A normal form is read as it was written. -/
theorem Walked.isRooted_written (h : Walked rooted parts) :
    isRooted (written rooted parts) = rooted := by
  cases rooted with
  | true =>
      have hb : '\\' ∉ (written true parts).toList := by
        show '\\' ∉ ("/" ++ joined '/' parts).toList
        rw [String.toList_append, List.mem_append, not_or]
        exact ⟨by decide, h.no_backslash⟩
      rw [isRooted, slashed_of_no_backslash hb, startsWith_iff]
      show "/".toList <+: ("/" ++ joined '/' parts).toList
      rw [String.toList_append]
      exact List.prefix_append ..
  | false =>
      cases parts with
      | nil => decide
      | cons first rest =>
          have hw : written false (first :: rest) = joined '/' (first :: rest) := rfl
          rw [isRooted, hw, slashed_of_no_backslash h.no_backslash]
          exact h.not_startsWith_slash

theorem written_of_ne_nil (hne : parts ≠ []) : written false parts = joined '/' parts :=
  if_neg hne

theorem Walked.segments_written (h : Walked false parts) (hne : parts ≠ []) :
    segments (written false parts) = parts := by
  rw [segments, written_of_ne_nil hne, slashed_of_no_backslash h.no_backslash]
  exact pieces_joined hne fun segment hs => (h.isProper segment hs).no_slash

theorem Walked.segments_written_rooted (h : Walked true parts) :
    segments (written true parts) = "" :: if parts = [] then [""] else parts := by
  have hb : '\\' ∉ ("/" ++ joined '/' parts).toList := by
    rw [String.toList_append, List.mem_append, not_or]
    exact ⟨by decide, h.no_backslash⟩
  have hcut : splitOn '/' ("/" ++ joined '/' parts).toList
      = [] :: splitOn '/' (joined '/' parts).toList := by
    rw [String.toList_append]
    exact splitOn_append_sep [] _
  show pieces '/' (slashed ("/" ++ joined '/' parts)) = _
  rw [slashed_of_no_backslash hb, pieces, hcut, List.map_cons]
  congr 1
  split
  · next hnil =>
    subst hnil
    rfl
  · next hne => exact pieces_joined hne fun segment hs => (h.isProper segment hs).no_slash

/-- Walking what was written gives the segments back. -/
theorem Walked.walked_written (h : Walked rooted parts) :
    walked (written rooted parts) = parts := by
  unfold walked
  rw [h.isRooted_written]
  cases rooted with
  | false =>
      by_cases hne : parts = []
      · subst hne
        rfl
      · rw [h.segments_written hne]
        exact h.foldl_step
  | true =>
      rw [h.segments_written_rooted]
      split
      · next hnil =>
        subst hnil
        rfl
      · exact h.foldl_step

/-- The path is in normal form. -/
def IsNormal (p : String) : Prop :=
  normalize p = p

theorem Walked.isNormal_written (h : Walked rooted parts) : IsNormal (written rooted parts) := by
  rw [IsNormal, normalize, h.isRooted_written, h.walked_written]

/-- Bringing a path to normal form a second time changes nothing. -/
theorem isNormal_normalize (p : String) : IsNormal (normalize p) :=
  (walked_walked p).isNormal_written

theorem isRooted_normalize (p : String) : isRooted (normalize p) = isRooted p :=
  (walked_walked p).isRooted_written

theorem walked_normalize (p : String) : walked (normalize p) = walked p :=
  (walked_walked p).walked_written

/-- A normal form is written with the segments that it is walked with. -/
theorem IsNormal.written_eq {p : String} (h : IsNormal p) : written (isRooted p) (walked p) = p :=
  h

/-- A normal form has forward slashes only. -/
theorem IsNormal.slashed_eq {p : String} (h : IsNormal p) : slashed p = p := by
  have hw := walked_walked p
  refine slashed_of_no_backslash ?_
  rw [← h.written_eq]
  unfold written
  split
  · rw [String.toList_append, List.mem_append, not_or]
    exact ⟨by decide, hw.no_backslash⟩
  · split
    · decide
    · exact hw.no_backslash

theorem IsNormal.backslash_not_mem {p : String} (h : IsNormal p) : '\\' ∉ p.toList := by
  rw [← h.slashed_eq]
  exact backslash_not_mem_slashed p

theorem isNormal_join (base relative : String) : IsNormal (join base relative) := by
  unfold join
  split
  · exact isNormal_normalize _
  · exact isNormal_normalize _

/-- A normal form does not begin with `./`. -/
theorem IsNormal.not_startsWith_current {p : String} (h : IsNormal p) :
    startsWith p "./" = false := by
  have hw := walked_walked p
  rw [← Bool.not_eq_true, startsWith_iff, ← h.written_eq]
  rintro ⟨more, hmore⟩
  cases hr : isRooted p with
  | true =>
      rw [hr] at hmore
      have hroot : (written true (walked p)).toList = '/' :: (joined '/' (walked p)).toList :=
        String.toList_append
      rw [hroot] at hmore
      exact absurd (List.head_eq_of_cons_eq hmore) (by decide)
  | false =>
      rw [hr] at hmore hw
      cases hparts : walked p with
      | nil =>
          rw [hparts] at hmore
          simp [written] at hmore
      | cons first rest =>
          rw [hparts] at hmore hw
          have hproper := hw.isProper first (List.mem_cons_self ..)
          have hcut : pieces '/' (written false (first :: rest)) = first :: rest :=
            pieces_joined (List.cons_ne_nil _ _) fun segment hs => (hw.isProper segment hs).no_slash
          have hcurrent : splitOn '/' (written false (first :: rest)).toList
              = ['.'] :: splitOn '/' more := by
            rw [← hmore]
            exact splitOn_append_sep ['.'] more
          rw [pieces, hcurrent, List.map_cons] at hcut
          exact hproper.ne_current (List.head_eq_of_cons_eq hcut).symm

/-- A path that is given in normal form is taken as it is. -/
theorem IsNormal.ofGiven_eq {p : String} (h : IsNormal p) : ofGiven p = p := by
  rw [ofGiven, withoutStart_of_not_startsWith h.not_startsWith_current]
  exact h

-- ========================================================== directories

/-- Before the last segment of a normal form stands the directory. -/
theorem Walked.directory_written {last : String} (h : Walked false (parts ++ [last])) :
    directory (written false (parts ++ [last])) = written false parts := by
  have hnormal : normalize (written false (parts ++ [last])) = written false (parts ++ [last]) :=
    h.isNormal_written
  have hlast : ∀ c ∈ last.toList.reverse, (c ≠ '/' : Bool) = true := by
    intro c hc
    have hne : c ≠ '/' := fun heq =>
      (h.isProper last (by simp)).no_slash (heq ▸ List.mem_reverse.mp hc)
    simpa using hne
  have hwritten : written false (parts ++ [last]) = joined '/' (parts ++ [last]) :=
    written_of_ne_nil (by simp)
  unfold directory
  rw [hnormal, hwritten, joined_toList, List.map_append, List.map_singleton]
  cases parts with
  | nil =>
      have hdrop : (joinOn '/' ([] ++ [last.toList])).reverse.dropWhile (· ≠ '/') = [] := by
        rw [List.nil_append, joinOn, ← List.append_nil last.toList.reverse,
          List.dropWhile_append_of_pos hlast, List.dropWhile_nil]
      rw [List.map_nil, hdrop]
      rfl
  | cons first rest =>
      have hfirst : joinOn '/' ((first :: rest).map String.toList) ≠ [] := by
        have hproper := (h.dropLast).isProper first (List.mem_cons_self ..)
        have hne : first.toList ≠ [] := fun h => hproper.ne_empty (String.toList_eq_nil_iff.mp h)
        cases rest with
        | nil => exact hne
        | cons second more =>
            rw [List.map_cons, List.map_cons, joinOn_cons_cons]
            simp
      have hdrop : List.dropWhile (· ≠ '/')
          (joinOn '/' ((first :: rest).map String.toList ++ [last.toList])).reverse
          = '/' :: (joinOn '/' ((first :: rest).map String.toList)).reverse := by
        rw [joinOn_append (by simp) (by simp), List.reverse_append, List.reverse_cons,
          List.append_assoc, joinOn, List.dropWhile_append_of_pos hlast]
        rfl
      rw [hdrop]
      obtain ⟨c, cs, hcs⟩ := List.exists_cons_of_ne_nil (List.reverse_ne_nil_iff.mpr hfirst)
      rw [hcs]
      simp only
      rw [← hcs, List.reverse_reverse]
      rfl

/-- A normal form has no more segments than characters. -/
theorem Walked.length_le (h : Walked false parts) :
    parts.length ≤ (written false parts).length := by
  by_cases hne : parts = []
  · rw [hne]
    exact Nat.zero_le _
  · rw [written_of_ne_nil hne, ← String.length_toList, joined_toList,
      ← List.length_map (f := String.toList)]
    refine length_le_length_joinOn fun piece hp => ?_
    obtain ⟨segment, hs, rfl⟩ := List.mem_map.mp hp
    exact fun hnil => (h.isProper segment hs).ne_empty (String.toList_eq_nil_iff.mp hnil)

end ImportResolution.WorkspacePath
