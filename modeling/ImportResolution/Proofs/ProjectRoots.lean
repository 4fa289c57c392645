/-
The project that a path belongs to. Going outwards from a path in normal form
passes through every directory around it, nearest first (`findSome?_outwards`),
so the project that is found is the one whose root encloses the path most
closely, and of several projects with one root the last (`projectOf?_iff`).
-/
import ImportResolution.ProjectRoots
import ImportResolution.Proofs.WorkspacePath

namespace ImportResolution

open Text (splitOn joinOn_splitOn splitOn_append_sep splitOn_ne_nil startsWith_iff joinOn)
open WorkspacePath

-- =============================================================== tables

namespace Table

variable {κ α : Type} [DecidableEq κ]

theorem lookup_foldl_put (entries table : List (κ × α)) (key : κ) :
    (entries.foldl (fun table e => put e.1 e.2 table) table).lookup key
      = ((entries.reverse.find? (·.1 == key)).map (·.2)).or (table.lookup key) := by
  induction entries generalizing table with
  | nil => rfl
  | cons e rest ih =>
      rw [List.foldl_cons, ih, lookup_put, List.reverse_cons, List.find?_append]
      cases rest.reverse.find? (·.1 == key) with
      | some last => rfl
      | none =>
          by_cases he : key = e.1
          · simp [he]
          · have hne : (e.1 == key) = false := by simpa using Ne.symm he
            simp [he, hne]

/-- A table that is built from entries has the last value of each key. -/
theorem lookup_ofEntries (entries : List (κ × α)) (key : κ) :
    (ofEntries entries).lookup key = (entries.reverse.find? (·.1 == key)).map (·.2) := by
  rw [ofEntries, lookup_foldl_put, List.lookup_nil, Option.or_none]

end Table

-- ================================================================ paths

namespace WorkspacePath

/-- The path `outer` is `inner` itself or a directory around it. -/
def Encloses (outer inner : String) : Prop :=
  isRooted outer = isRooted inner ∧ walked outer <+: walked inner

/-- What encloses a path that has no root is written with the first segments of
the path. -/
theorem Encloses.eq_written {outer inner : String} (h : Encloses outer inner)
    (hr : isRooted inner = false) (hn : IsNormal outer) :
    outer = written false ((walked inner).take (walked outer).length) := by
  rw [← List.prefix_iff_eq_take.mp h.2, ← hr, ← h.1]
  exact hn.written_eq.symm

theorem encloses_take {inner : String} (hr : isRooted inner = false) (k : Nat) :
    Encloses (written false ((walked inner).take k)) inner := by
  have hw := walked_walked inner
  rw [hr] at hw
  refine ⟨(hw.take k).isRooted_written.trans hr.symm, ?_⟩
  rw [(hw.take k).walked_written]
  exact List.take_prefix ..

theorem length_walked_take {inner : String} (hr : isRooted inner = false) {k : Nat}
    (hk : k ≤ (walked inner).length) :
    (walked (written false ((walked inner).take k))).length = k := by
  have hw := walked_walked inner
  rw [hr] at hw
  rw [(hw.take k).walked_written, List.length_take, Nat.min_eq_left hk]

/-- A path in normal form that climbs out of the workspace begins with `..`, and
no other does. -/
theorem IsNormal.escapes_iff {p : String} (h : IsNormal p) (hr : isRooted p = false) :
    escapes p = true ↔ (segments p).head? = some ".." := by
  have hsegments : segments p = (splitOn '/' p.toList).map String.ofList := by
    rw [segments, h.slashed_eq]
    rfl
  unfold escapes
  rw [Bool.or_eq_true, beq_iff_eq, startsWith_iff]
  constructor
  · rintro (rfl | ⟨more, hmore⟩)
    · rfl
    · have hcut : splitOn '/' p.toList = ['.', '.'] :: splitOn '/' more := by
        rw [← hmore]
        exact splitOn_append_sep ['.', '.'] more
      rw [hsegments, hcut]
      rfl
  · intro hhead
    have hjoin := joinOn_splitOn '/' p.toList
    cases hcut : splitOn '/' p.toList with
    | nil => exact absurd hcut (splitOn_ne_nil _ _)
    | cons first rest =>
        rw [hsegments, hcut, List.map_cons, List.head?_cons, Option.some.injEq] at hhead
        have hfirst : first = ['.', '.'] := by
          have h := congrArg String.toList hhead
          rw [String.toList_ofList] at h
          exact h
        rw [hcut, hfirst] at hjoin
        cases rest with
        | nil => exact Or.inl (String.toList_inj.mp hjoin.symm)
        | cons second more => exact Or.inr ⟨joinOn '/' (second :: more), hjoin⟩

end WorkspacePath

namespace ProjectRoots

-- ============================================================ outwards

theorem outwards_root (steps : Nat) : outwards steps "." = ["."] := by
  cases steps with
  | zero => rfl
  | succ steps => exact if_pos rfl

/-- A normal form with segments is not the root of the workspace. -/
theorem written_ne_root {parts : List String} (h : Walked false parts) (hne : parts ≠ []) :
    written false parts ≠ "." := by
  intro heq
  have hw := h.walked_written
  rw [heq] at hw
  exact hne hw.symm

theorem findSome?_outwards_root {α : Type} (f : String → Option α) (a : α) (steps : Nat) :
    (outwards steps (written false [])).findSome? f = some a
      ↔ ∃ k ≤ 0, f (written false (([] : List String).take k)) = some a ∧
        ∀ j, k < j → j ≤ 0 → f (written false (([] : List String).take j)) = none := by
  show (outwards steps ".").findSome? f = some a ↔ _
  rw [outwards_root, List.findSome?_singleton]
  constructor
  · exact fun hf => ⟨0, Nat.le_refl 0, hf, fun j hj hj' => absurd hj (by omega)⟩
  · rintro ⟨k, -, hf, -⟩
    rw [List.take_nil] at hf
    exact hf

/-- Going outwards from a normal form finds what the longest of its beginnings
has that has anything. -/
theorem findSome?_outwards {α : Type} (f : String → Option α) (a : α) {steps : Nat}
    {parts : List String} (h : Walked false parts) (hsteps : parts.length ≤ steps) :
    (outwards steps (written false parts)).findSome? f = some a
      ↔ ∃ k ≤ parts.length, f (written false (parts.take k)) = some a ∧
        ∀ j, k < j → j ≤ parts.length → f (written false (parts.take j)) = none := by
  induction steps generalizing parts with
  | zero =>
      obtain rfl := List.eq_nil_of_length_eq_zero (Nat.le_zero.mp hsteps)
      exact findSome?_outwards_root f a 0
  | succ steps ih =>
      rcases List.eq_nil_or_concat parts with rfl | ⟨init, last, rfl⟩
      · exact findSome?_outwards_root f a (steps + 1)
      · rw [List.concat_eq_append] at h hsteps ⊢
        rw [List.length_append, List.length_singleton] at hsteps ⊢
        have hwhole : (init ++ [last]).take (init.length + 1) = init ++ [last] :=
          List.take_of_length_le (by simp)
        have hinit : ∀ k ≤ init.length, (init ++ [last]).take k = init.take k := fun k hk =>
          List.take_append_of_le_length hk
        rw [outwards, if_neg (written_ne_root h (by simp)), List.findSome?_cons,
          h.directory_written]
        cases hf : f (written false (init ++ [last])) with
        | some b =>
            constructor
            · intro hb
              refine ⟨init.length + 1, Nat.le_refl _, ?_, fun j hj hj' => absurd hj (by omega)⟩
              rw [hwhole, hf]
              exact hb
            · rintro ⟨k, hk, hfk, hnone⟩
              by_cases hlast : k = init.length + 1
              · rw [hlast, hwhole, hf] at hfk
                exact hfk
              · have h := hnone (init.length + 1) (by omega) (Nat.le_refl _)
                rw [hwhole, hf] at h
                cases h
        | none =>
            rw [ih h.dropLast (by omega)]
            constructor
            · rintro ⟨k, hk, hfk, hnone⟩
              refine ⟨k, by omega, by rw [hinit k hk]; exact hfk, fun j hj hj' => ?_⟩
              by_cases hlast : j = init.length + 1
              · rw [hlast, hwhole]
                exact hf
              · rw [hinit j (by omega)]
                exact hnone j hj (by omega)
            · rintro ⟨k, hk, hfk, hnone⟩
              have hlast : k ≠ init.length + 1 := by
                intro heq
                rw [heq, hwhole, hf] at hfk
                cases hfk
              refine ⟨k, by omega, by rw [← hinit k (by omega)]; exact hfk, fun j hj hj' => ?_⟩
              rw [← hinit j hj']
              exact hnone j hj (by omega)

/-- The paths around a normal form are its beginnings, longest first. -/
theorem findSome?_enclosing {α : Type} (f : String → Option α) (a : α) {p : String}
    (hp : IsNormal p) (hr : isRooted p = false) :
    (enclosing p).findSome? f = some a
      ↔ ∃ k ≤ (walked p).length, f (written false ((walked p).take k)) = some a ∧
        ∀ j, k < j → j ≤ (walked p).length → f (written false ((walked p).take j)) = none := by
  have hw := walked_walked p
  have heq := hp.written_eq
  rw [hr] at hw heq
  have hlength := hw.length_le
  rw [heq] at hlength
  have h := findSome?_outwards f a hw hlength
  rw [heq] at h
  exact h

-- ============================================================== owners

/-- The project of a name owns a path: the path is in normal form, inside the
workspace and not in an installed directory; the root of the project encloses
it, no root of a project does so more closely, and no later project has the
same root. -/
structure Owns (projects : List Project) (installed p name : String) : Prop where
  normal : IsNormal p
  unrooted : isRooted p = false
  inside : (segments p).head? ≠ some ".."
  uninstalled : installed ∉ segments p
  nearest : ∃ before project after, projects = before ++ project :: after ∧ project.name = name ∧
    (∀ later ∈ after, WorkspacePath.normalize later.root ≠ WorkspacePath.normalize project.root) ∧
    Encloses (WorkspacePath.normalize project.root) p ∧
    ∀ other ∈ projects, Encloses (WorkspacePath.normalize other.root) p →
      (walked (WorkspacePath.normalize other.root)).length
        ≤ (walked (WorkspacePath.normalize project.root)).length

variable {projects : List Project} {installed p name root : String}

/-- The name under a root is that of the last project with this root. -/
theorem lookup_ofProjects_iff :
    (ofProjects projects installed).entries.lookup root = some name
      ↔ ∃ before project after, projects = before ++ project :: after ∧ project.name = name ∧
        WorkspacePath.normalize project.root = root ∧
        ∀ later ∈ after, WorkspacePath.normalize later.root ≠ root := by
  unfold ofProjects
  rw [Table.lookup_ofEntries, ← List.map_reverse, List.find?_map, Option.map_map,
    Option.map_eq_some_iff]
  constructor
  · rintro ⟨project, hfind, hname⟩
    obtain ⟨hroot, after, before, hsplit, hafter⟩ := List.find?_eq_some_iff_append.mp hfind
    refine ⟨before.reverse, project, after.reverse, ?_, hname, by simpa using hroot, ?_⟩
    · have h := congrArg List.reverse hsplit
      simpa using h
    · intro later hlater
      have h := hafter later (List.mem_reverse.mp hlater)
      simpa using h
  · rintro ⟨before, project, after, rfl, hname, hroot, hafter⟩
    refine ⟨project, List.find?_eq_some_iff_append.mpr ⟨by simpa using hroot, after.reverse,
      before.reverse, by simp, fun later hlater => ?_⟩, hname⟩
    simpa using hafter later (List.mem_reverse.mp hlater)

/-- Every project's root has a name. -/
theorem lookup_ofProjects_ne_none {project : Project} (h : project ∈ projects) :
    (ofProjects projects installed).entries.lookup (WorkspacePath.normalize project.root)
      ≠ none := by
  unfold ofProjects
  rw [Table.lookup_ofEntries, ne_eq, Option.map_eq_none_iff, List.find?_eq_none]
  intro hnone
  have hself := hnone (WorkspacePath.normalize project.root, project.name)
    (List.mem_reverse.mpr (List.mem_map.mpr ⟨project, h, rfl⟩))
  simp at hself

/-- Normal forms that belong to no project are kept out. -/
theorem admits_iff (hp : IsNormal p) :
    (ofProjects projects installed).admits p = true
      ↔ isRooted p = false ∧ (segments p).head? ≠ some ".." ∧ installed ∉ segments p := by
  have hseg : hasSegment p installed = true ↔ installed ∈ segments p := by
    rw [hasSegment, List.any_eq_true]
    simp
  unfold admits ofProjects
  rw [Bool.not_eq_true', Bool.or_eq_false_iff, Bool.or_eq_false_iff, ← Bool.not_eq_true, hseg]
  constructor
  · rintro ⟨⟨hin, hesc⟩, hr⟩
    refine ⟨hr, fun hhead => ?_, hin⟩
    rw [(hp.escapes_iff hr).mpr hhead] at hesc
    cases hesc
  · rintro ⟨hr, hhead, hin⟩
    refine ⟨⟨hin, ?_⟩, hr⟩
    rw [← Bool.not_eq_true, hp.escapes_iff hr]
    exact hhead

/-- A path through an installed directory belongs to no project. -/
theorem projectOf?_of_hasSegment {r : ProjectRoots} (hp : IsNormal p)
    (h : hasSegment p r.installedDirectory = true) : r.projectOf? p = none := by
  have hadmits : r.admits p = false := by
    unfold admits
    rw [h, Bool.true_or, Bool.true_or, Bool.not_true]
  unfold projectOf?
  simp only [hp.ofGiven_eq, hadmits, Bool.false_eq_true, if_false]

/-- The project that is found for a path is the one that owns it. -/
theorem projectOf?_iff {path : String} :
    (ofProjects projects installed).projectOf? path = some name
      ↔ Owns projects installed (ofGiven path) name := by
  have hp : IsNormal (ofGiven path) := isNormal_normalize _
  have hrun : (ofProjects projects installed).projectOf? path
      = if (ofProjects projects installed).admits (ofGiven path) then
          (enclosing (ofGiven path)).findSome?
            fun root => (ofProjects projects installed).entries.lookup root
        else none := rfl
  rw [hrun]
  constructor
  · intro h
    split at h
    · next hadmits =>
      obtain ⟨hr, hinside, huninstalled⟩ := (admits_iff hp).mp hadmits
      obtain ⟨k, hk, hname, hnone⟩ := (findSome?_enclosing _ _ hp hr).mp h
      obtain ⟨before, project, after, hsplit, hproject, hroot, hafter⟩ :=
        lookup_ofProjects_iff.mp hname
      have henc := encloses_take hr k
      rw [← hroot] at henc hafter
      refine ⟨hp, hr, hinside, huninstalled, before, project, after, hsplit, hproject, hafter,
        henc, fun other hother hencloses => ?_⟩
      rw [hroot, length_walked_take hr hk]
      refine Nat.le_of_not_lt fun hlt => ?_
      have hwritten := hencloses.eq_written hr (isNormal_normalize _)
      have h := hnone _ hlt hencloses.2.length_le
      rw [← hwritten] at h
      exact lookup_ofProjects_ne_none hother h
    · cases h
  · intro h
    rw [if_pos ((admits_iff hp).mpr ⟨h.unrooted, h.inside, h.uninstalled⟩)]
    obtain ⟨before, project, after, hsplit, hproject, hafter, hencloses, hlongest⟩ := h.nearest
    have hwritten := hencloses.eq_written h.unrooted (isNormal_normalize _)
    refine (findSome?_enclosing _ _ hp h.unrooted).mpr
      ⟨_, hencloses.2.length_le, ?_, fun j hj hj' => ?_⟩
    · rw [← hwritten]
      exact lookup_ofProjects_iff.mpr ⟨before, project, after, hsplit, hproject, rfl, hafter⟩
    · cases hlookup : (ofProjects projects installed).entries.lookup
          (written false ((walked (ofGiven path)).take j)) with
      | none => rfl
      | some other =>
          obtain ⟨before', project', after', hsplit', -, hroot', -⟩ :=
            lookup_ofProjects_iff.mp hlookup
          have hmem : project' ∈ projects := by
            rw [hsplit']
            simp
          have henc := encloses_take h.unrooted j
          rw [← hroot'] at henc
          have hle := hlongest project' hmem henc
          rw [hroot', length_walked_take h.unrooted hj'] at hle
          exact absurd hj (Nat.not_lt.mpr hle)

end ProjectRoots

end ImportResolution
