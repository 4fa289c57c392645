/-
The two normal forms of a path. A workspace path is brought to normal form segment by
segment, any path is cleaned component by component. Where no backslash separates
segments the two walks are one: what a segment does to the segments kept so far, its
component does to theirs (`foldl_settle_segment`). So a path may be brought to normal form
before it is cleaned (`clean_normalize`), and the two forms are one text but for the empty
path, which is `.` in the workspace (`normalize_eq_clean`).

# Relative paths

A relative path keeps the `..` that lead out of it, and they are carried out when it is
joined to another. It makes no difference that the rest was carried out before
(`foldl_settle_foldl`): a relative path may be cleaned, brought to normal form or joined to
another relative path first, and leads to the same place (`clean_join_clean`,
`clean_join_normalize`, `clean_join_join`).
-/
import ImportResolution.Proofs.FilePath.Detours

namespace ImportResolution.FilePath

open WorkspacePath (IsNormal Walked isNormal_normalize isRooted normalize segments step walked)

variable {p q base rest : String}

-- ================================================== segments as components

/-- The component that a segment of a normal form stands for. -/
def Component.ofPart (segment : String) : Component :=
  if segment = ".." then .up else .name segment

theorem ofSegment?_eq_none {segment : String} :
    Component.ofSegment? segment.toList = none ↔ segment = "" ∨ segment = "." := by
  have hvoid : segment.toList = [] ∨ segment.toList = ['.'] ↔ segment = "" ∨ segment = "." := by
    rw [← String.toList_inj, ← String.toList_inj]
    rfl
  rw [Component.ofSegment?, ← hvoid]
  split
  · next h => exact iff_of_true rfl h
  · next h =>
    refine iff_of_false ?_ h
    split
    · exact Option.some_ne_none _
    · exact Option.some_ne_none _

theorem ofSegment?_eq_ofPart {segment : String} (h : ¬ (segment = "" ∨ segment = ".")) :
    Component.ofSegment? segment.toList = some (.ofPart segment) := by
  have hup : segment.toList = ['.', '.'] ↔ segment = ".." := by
    rw [← String.toList_inj]
    rfl
  rw [← ofSegment?_eq_none, Component.ofSegment?] at h
  rw [Component.ofSegment?]
  split at h
  · exact absurd rfl h
  · next hvoid =>
    rw [if_neg hvoid, Component.ofPart]
    by_cases hsegment : segment = ".."
    · rw [if_pos (hup.mpr hsegment), if_pos hsegment]
    · rw [if_neg fun h => hsegment (hup.mp h), if_neg hsegment, String.ofList_toList]

/-- What a segment does to the segments kept so far, it does to their components. -/
theorem foldl_settle_segment {rooted : Bool} {kept : List String} (h : Walked rooted kept.reverse)
    (segment : String) :
    (Component.ofSegment? segment.toList).toList.foldl settle
        (kept.map .ofPart ++ origin rooted)
      = (step rooted kept segment).map .ofPart ++ origin rooted := by
  unfold step
  by_cases hvoid : segment = "" ∨ segment = "."
  · rw [ofSegment?_eq_none.mpr hvoid, if_pos hvoid]
    rfl
  · rw [ofSegment?_eq_ofPart hvoid, if_neg hvoid]
    by_cases hup : segment = ".."
    · rw [if_pos hup, Component.ofPart, if_pos hup]
      cases kept with
      | nil =>
          cases rooted with
          | true => rfl
          | false => rfl
      | cons last before =>
          by_cases hlast : last = ".."
          · -- below a root there is no `..` to stay behind
            subst hlast
            obtain ⟨rfl, -⟩ := Walked.climbs (List.reverse_cons ▸ h)
            rfl
          · simp only [List.map_cons, Component.ofPart, hlast, if_false, ne_eq, not_false_eq_true,
              if_true]
            rfl
    · rw [if_neg hup, List.map_cons, Component.ofPart, if_neg hup]
      rfl

/-- Walking segments is carrying out their components. -/
theorem foldl_settle_segments {rooted : Bool} {kept : List String}
    (h : Walked rooted kept.reverse) {more : List String}
    (hs : ∀ segment ∈ more, '/' ∉ segment.toList ∧ '\\' ∉ segment.toList) :
    (more.filterMap fun segment => Component.ofSegment? segment.toList).foldl settle
        (kept.map .ofPart ++ origin rooted)
      = (more.foldl (step rooted) kept).map .ofPart ++ origin rooted := by
  induction more generalizing kept with
  | nil => rfl
  | cons segment rest ih =>
      obtain ⟨hsegment, hrest⟩ := List.forall_mem_cons.mp hs
      have hcons : ((segment :: rest).filterMap fun s => Component.ofSegment? s.toList)
          = (Component.ofSegment? segment.toList).toList
            ++ rest.filterMap fun s => Component.ofSegment? s.toList := by
        rw [List.filterMap_cons]
        cases Component.ofSegment? segment.toList <;> rfl
      rw [hcons, List.foldl_append, foldl_settle_segment h segment, List.foldl_cons]
      exact ih (WorkspacePath.walked_step h hsegment) hrest

-- ========================================================= normal forms

theorem isAbsolute_eq_isRooted (hp : '\\' ∉ p.toList) : isAbsolute p = isRooted p := by
  rw [isRooted, WorkspacePath.slashed_of_no_backslash hp, isAbsolute]

theorem steps_eq_segments (hp : '\\' ∉ p.toList) :
    steps p.toList
      = (segments p).filterMap fun segment => Component.ofSegment? segment.toList := by
  rw [segments, WorkspacePath.slashed_of_no_backslash hp, Text.pieces, List.filterMap_map, steps]
  congr 1
  funext segment
  rw [Function.comp, String.toList_ofList]

/-- A path without backslashes is cleaned to the segments that it is walked with. -/
theorem settled_eq_walked (hp : '\\' ∉ p.toList) :
    settled p = origin (isRooted p) ++ (walked p).map .ofPart := by
  have hstart : Walked (isRooted p) ([] : List String).reverse :=
    WorkspacePath.walked_nil (isRooted p)
  have hfold := foldl_settle_segments hstart fun segment (hs : segment ∈ segments p) =>
    WorkspacePath.mem_segments hs
  rw [List.map_nil, List.nil_append] at hfold
  rw [settled_eq_foldl, isAbsolute_eq_isRooted hp, steps_eq_segments hp, hfold,
    List.reverse_append, reverse_origin, walked, List.map_reverse]

/-- So is a path in normal form, which has none. -/
theorem settled_of_isNormal (h : IsNormal p) (hr : isRooted p = false) :
    settled p = (walked p).map .ofPart := by
  rw [settled_eq_walked h.backslash_not_mem, hr, origin_false, List.nil_append]

theorem isAbsolute_of_isNormal (h : IsNormal p) : isAbsolute p = isRooted p :=
  isAbsolute_eq_isRooted h.backslash_not_mem

theorem settled_normalize (hp : '\\' ∉ p.toList) : settled (normalize p) = settled p := by
  rw [settled_eq_walked (isNormal_normalize p).backslash_not_mem, settled_eq_walked hp,
    WorkspacePath.isRooted_normalize, WorkspacePath.walked_normalize]

/-- A path may be brought to normal form before it is cleaned. -/
theorem clean_normalize (hp : '\\' ∉ p.toList) : clean (normalize p) = clean p := by
  rw [clean, clean, settled_normalize hp]

theorem isAbsolute_normalize (hp : '\\' ∉ p.toList) : isAbsolute (normalize p) = isAbsolute p := by
  rw [isAbsolute_of_isNormal (isNormal_normalize p), isAbsolute_eq_isRooted hp,
    WorkspacePath.isRooted_normalize]

-- ================================================================ texts

theorem text_ofPart (segment : String) : (Component.ofPart segment).text = segment := by
  unfold Component.ofPart
  split
  · next h => exact h.symm
  · rfl

theorem ofPart_ne_root (segment : String) : Component.ofPart segment ≠ .root := by
  unfold Component.ofPart
  split
  · exact nofun
  · exact nofun

/-- The components of segments are written as the segments. -/
theorem ofComponents_ofPart (rooted : Bool) (parts : List String) :
    ofComponents (origin rooted ++ parts.map .ofPart)
      = (if rooted then "/" else "") ++ Text.joined '/' parts := by
  have htexts : (parts.map Component.ofPart).map Component.text = parts := by
    rw [List.map_map]
    exact List.map_id'' text_ofPart parts
  cases rooted with
  | true =>
      show "/" ++ Text.joined '/' ((parts.map Component.ofPart).map Component.text) = _
      rw [htexts]
      rfl
  | false =>
      show ofComponents (parts.map Component.ofPart) = "" ++ _
      rw [String.empty_append]
      unfold ofComponents
      split
      · next rest h =>
        obtain ⟨segment, -, hsegment⟩ := List.mem_map.mp (h ▸ List.mem_cons_self)
        exact absurd hsegment (ofPart_ne_root segment)
      · rw [htexts]

/-- A path without backslashes is cleaned to the text of the segments that it is walked
with. -/
theorem clean_eq_joined (hp : '\\' ∉ p.toList) :
    clean p = (if isRooted p then "/" else "") ++ Text.joined '/' (walked p) := by
  rw [clean, settled_eq_walked hp, ofComponents_ofPart]

/-- Segments of a normal form are written as the empty text only if there are none. -/
theorem joined_ne_empty {parts : List String} (h : Walked false parts) (hne : parts ≠ []) :
    Text.joined '/' parts ≠ "" := by
  intro hempty
  have hlength := h.length_le
  rw [WorkspacePath.written_of_ne_nil hne, hempty] at hlength
  exact hne (List.length_eq_zero_iff.mp (Nat.le_zero.mp hlength))

/-- Without backslashes the normal form of a path is the cleaned path, with `.` for the
empty one. -/
theorem normalize_eq_ite (hp : '\\' ∉ p.toList) :
    normalize p = if clean p = "" then "." else clean p := by
  have hwalked := WorkspacePath.walked_walked p
  rw [WorkspacePath.normalize, clean_eq_joined hp]
  cases hrooted : isRooted p with
  | true =>
      have hne : "/" ++ Text.joined '/' (walked p) ≠ "" := by
        intro hempty
        have hlists := congrArg String.toList hempty
        rw [String.toList_append] at hlists
        cases hlists
      rw [if_pos rfl, if_neg hne]
      rfl
  | false =>
      rw [hrooted] at hwalked
      rw [if_neg Bool.false_ne_true, String.empty_append]
      by_cases hparts : walked p = []
      · rw [hparts]
        rfl
      · rw [if_neg (joined_ne_empty hwalked hparts), WorkspacePath.written_of_ne_nil hparts]

/-- The two forms of a path without backslashes are one text but for the empty path, so two
such paths have one normal form exactly if they are cleaned alike. -/
theorem normalize_eq_clean (hp : '\\' ∉ p.toList) :
    normalize p = (if clean p = "" then "." else clean p) ∧
      ∀ q, '\\' ∉ q.toList → (normalize p = normalize q ↔ clean p = clean q) := by
  refine ⟨normalize_eq_ite hp, fun q hq => ?_⟩
  constructor
  · intro h
    rw [← clean_normalize hp, h, clean_normalize hq]
  · intro h
    rw [normalize_eq_ite hp, h, normalize_eq_ite hq]

/-- Two spellings of a path that climbs out of where it starts. -/
theorem normalize_eq_clean_outside :
    '\\' ∉ "a/.././/../b/".toList ∧ '\\' ∉ "./../b/c/..".toList ∧
      normalize "a/.././/../b/"
        = (if clean "a/.././/../b/" = "" then "." else clean "a/.././/../b/") ∧
      (normalize "a/.././/../b/" = normalize "./../b/c/.." ↔
        clean "a/.././/../b/" = clean "./../b/c/..") := by
  have hp : '\\' ∉ "a/.././/../b/".toList := by decide
  have hq : '\\' ∉ "./../b/c/..".toList := by decide
  obtain ⟨htext, hagree⟩ := normalize_eq_clean hp
  exact ⟨hp, hq, htext, hagree _ hq⟩

-- ======================================================== relative paths

/-- To carry a component out and then what is kept is to carry it out last. -/
theorem foldl_settle_settle (kept before : List Component) (c : Component) :
    (settle kept c).reverse.foldl settle before
      = settle (kept.reverse.foldl settle before) c := by
  have hnext (d : Component) : (d :: kept).reverse.foldl settle before
      = settle (kept.reverse.foldl settle before) d := by
    rw [List.reverse_cons, List.foldl_append]
    rfl
  cases c with
  | root => exact hnext .root
  | current => rfl
  | name text => exact hnext (.name text)
  | up =>
      cases kept with
      | nil => exact hnext .up
      | cons last earlier =>
          cases last with
          | current => exact hnext .up
          | up => exact hnext .up
          | root =>
              rw [settle, List.reverse_cons, List.foldl_append]
              rfl
          | name text =>
              -- the name is kept and taken back
              rw [settle, List.reverse_cons, List.foldl_append]
              rfl

/-- Components may be carried out among themselves first. -/
theorem foldl_settle_foldl (cs kept before : List Component) :
    (cs.foldl settle kept).reverse.foldl settle before
      = cs.foldl settle (kept.reverse.foldl settle before) := by
  induction cs generalizing kept with
  | nil => rfl
  | cons c more ih => rw [List.foldl_cons, ih, foldl_settle_settle, List.foldl_cons]

theorem isAbsolute_clean (p : String) : isAbsolute (clean p) = isAbsolute p := by
  obtain ⟨parts, hp, hparts⟩ := settled_eq p
  have hlead := lead_ofComponents (isAbsolute p) hparts
  rw [← hp, ← clean] at hlead
  rw [Bool.eq_iff_iff, isAbsolute_iff, hlead]
  cases isAbsolute p with
  | true => decide
  | false => decide

theorem steps_clean (hp : isAbsolute p = false) : steps (clean p).toList = settled p := by
  obtain ⟨parts, hparts, hsteps⟩ := settled_eq p
  rw [hp] at hparts
  rw [← components_clean, components_eq, clean, hparts, leadComponent?_eq_none]
  · rfl
  · exact lead_ofComponents false hsteps

theorem foldl_settle_settled (hp : isAbsolute p = false) (before : List Component) :
    (settled p).foldl settle before = (steps p.toList).foldl settle before := by
  rw [settled_eq_foldl, hp, foldl_settle_foldl]
  rfl

/-- A relative path may be cleaned before it is joined. -/
theorem clean_join_clean (base : String) (hrest : isAbsolute rest = false) :
    clean (join base (clean rest)) = clean (join base rest) := by
  have hclean : isAbsolute (clean rest) = false := (isAbsolute_clean rest).trans hrest
  rw [clean_eq_iff, settled_join hclean, settled_join hrest, steps_clean hrest,
    foldl_settle_settled hrest]

/-- Relative paths that are cleaned alike lead to the same place. -/
theorem clean_join_congr_right (base : String) (hp : isAbsolute p = false)
    (hq : isAbsolute q = false) (h : clean p = clean q) :
    clean (join base p) = clean (join base q) := by
  rw [← clean_join_clean base hp, h, clean_join_clean base hq]

/-- A relative path may be brought to normal form before it is joined. -/
theorem clean_join_normalize (base : String) (hrest : isAbsolute rest = false)
    (hslash : '\\' ∉ rest.toList) : clean (join base (normalize rest)) = clean (join base rest) :=
  clean_join_congr_right base ((isAbsolute_normalize hslash).trans hrest) hrest
    (clean_normalize hslash)

/-- Relative paths may be joined to each other first. -/
theorem clean_join_join (base : String) (hp : isAbsolute p = false) (hq : isAbsolute q = false) :
    clean (join base (join p q)) = clean (join (join base p) q) := by
  rw [← clean_join_clean base (isAbsolute_join hp hq), clean_eq_iff,
    settled_join ((isAbsolute_clean _).trans (isAbsolute_join hp hq)),
    steps_clean (isAbsolute_join hp hq), settled_join hq, settled_join hq, settled_join hp,
    foldl_settle_foldl, List.reverse_reverse, List.reverse_reverse, foldl_settle_settled hp]

-- ======================================================== workspace joins

theorem settled_slash (hp : p ≠ "") :
    settled (p ++ "/" ++ q) = ((steps q.toList).foldl settle (settled p).reverse).reverse := by
  have hne : p.toList ≠ [] := mt String.toList_eq_nil_iff.mp hp
  have habs : isAbsolute (p ++ "/" ++ q) = isAbsolute p := by
    rw [Bool.eq_iff_iff, isAbsolute_iff, isAbsolute_iff, Text.toList_append_slash,
      lead_append_slash hne]
  rw [settled_eq_foldl, settled_eq_foldl p, habs, Text.toList_append_slash, steps_append_slash,
    List.foldl_append, List.reverse_reverse]

/-- Joins of workspace paths and joins of files lead to the same place. -/
theorem clean_workspace_join (hbase : '\\' ∉ base.toList) (hrest : isAbsolute rest = false)
    (hslash : '\\' ∉ rest.toList) :
    clean (WorkspacePath.join base rest) = clean (join base rest) := by
  rw [WorkspacePath.join, clean_eq_iff, settled_join hrest]
  split
  · next hvoid =>
    rw [settled_normalize hslash, settled_eq_foldl, hrest]
    rcases hvoid with rfl | rfl
    · rfl
    · rfl
  · next hvoid =>
    have hboth : '\\' ∉ (base ++ "/" ++ rest).toList := by
      rw [String.toList_append, String.toList_append, List.mem_append, List.mem_append]
      exact fun h => h.elim (fun h => h.elim hbase (by decide)) hslash
    rw [settled_normalize hboth, settled_slash fun h => hvoid (Or.inl h)]

/-- What is joined in the workspace may be joined to the root of the workspace in turn. -/
theorem clean_join_workspace_join (root : String) (hp : isAbsolute p = false)
    (hp' : '\\' ∉ p.toList) (hq : isAbsolute q = false) (hq' : '\\' ∉ q.toList) :
    clean (join root (WorkspacePath.join p q)) = clean (join (join root p) q) := by
  have hclean : clean (WorkspacePath.join p q) = clean (join p q) := clean_workspace_join hp' hq hq'
  have hboth : isAbsolute (join p q) = false := isAbsolute_join hp hq
  have hjoin : isAbsolute (WorkspacePath.join p q) = false := by
    rw [← isAbsolute_clean, hclean, isAbsolute_clean, hboth]
  rw [clean_join_congr_right root hjoin hboth hclean, clean_join_join root hp hq]

end ImportResolution.FilePath
