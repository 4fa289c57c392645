/-
The project with the longest root around a path. That a root encloses a path is
a matter of whole segments: read as texts, the root is the path itself, or the
path goes on after the root with a slash (`encloses_iff_text`). Of the roots that
enclose one path no two are equally deep (`Encloses.root_unique`), so the projects
with the deepest ones share a root, and the last of them is the one that is found.
-/
import ImportResolution.Proofs.ProjectRoots
import Mathlib.Data.List.MinMax

namespace ImportResolution

open Text (splitOn joinOn splitOn_append_sep startsWith startsWith_iff joinOn_append pieces)
open WorkspacePath

-- =========================================================== as texts

namespace WorkspacePath

variable {outer inner : String}

/-- A normal form below no root that is not the root of the workspace is walked
with the segments that it is written with. -/
theorem IsNormal.segments_eq_walked (h : IsNormal outer) (hr : isRooted outer = false)
    (hne : outer ≠ ".") : segments outer = walked outer := by
  have hw := walked_walked outer
  have hwritten := h.written_eq
  rw [hr] at hw hwritten
  have hparts : walked outer ≠ [] := by
    intro hnil
    rw [hnil] at hwritten
    exact hne hwritten.symm
  have hsegments := hw.segments_written hparts
  rw [hwritten] at hsegments
  exact hsegments

/-- The segments of a normal form that goes on after another one. -/
theorem segments_of_append {rest : List Char} (ho : IsNormal outer) (hi : IsNormal inner)
    (h : inner.toList = outer.toList ++ '/' :: rest) :
    segments inner = segments outer ++ (splitOn '/' rest).map String.ofList := by
  rw [segments, segments, hi.slashed_eq, ho.slashed_eq, pieces, pieces, h, splitOn_append_sep,
    List.map_append]

/-- What a path that has no root goes on after has no root either. -/
theorem isRooted_of_append {rest : List Char} (ho : IsNormal outer) (hi : IsNormal inner)
    (hr : isRooted inner = false) (h : inner.toList = outer.toList ++ rest) :
    isRooted outer = false := by
  rw [← Bool.not_eq_true] at hr ⊢
  intro houter
  refine hr ?_
  rw [isRooted, ho.slashed_eq, startsWith_iff] at houter
  rw [isRooted, hi.slashed_eq, startsWith_iff, h]
  exact houter.trans (List.prefix_append _ _)

theorem encloses_root (hr : isRooted inner = false) : Encloses "." inner := by
  have hroot : isRooted "." = false := by decide
  have hwalked : walked "." = [] := by decide
  refine ⟨hroot.trans hr.symm, ?_⟩
  rw [hwalked]
  exact List.nil_prefix

/-- A root encloses a path if it is the root of the workspace, the path itself, or
what stands before some slash of the path. -/
theorem encloses_iff_text (ho : IsNormal outer) (hi : IsNormal inner)
    (hr : isRooted inner = false) :
    Encloses outer inner
      ↔ outer = "." ∨ outer = inner ∨ startsWith inner (outer ++ "/") = true := by
  have hw := walked_walked inner
  have hinner := hi.written_eq
  rw [hr] at hw hinner
  constructor
  · intro h
    have houter := ho.written_eq
    rw [h.1, hr] at houter
    obtain ⟨rest, hrest⟩ := h.2
    by_cases hroot : walked outer = []
    · rw [hroot] at houter
      exact Or.inl houter.symm
    by_cases hwhole : rest = []
    · rw [hwhole, List.append_nil] at hrest
      rw [hrest] at houter
      exact Or.inr (Or.inl (houter.symm.trans hinner))
    -- the path is written with the segments of the root, a slash, and the others
    refine Or.inr (Or.inr (startsWith_iff.mpr ?_))
    have hne : walked inner ≠ [] := by
      rw [← hrest]
      exact List.append_ne_nil_of_left_ne_nil hroot rest
    have houterText : outer.toList = joinOn '/' ((walked outer).map String.toList) := by
      rw [← joined_toList, ← written_of_ne_nil hroot, houter]
    have hinnerText : inner.toList = joinOn '/' ((walked inner).map String.toList) := by
      rw [← joined_toList, ← written_of_ne_nil hne, hinner]
    rw [hinnerText, ← hrest, List.map_append, joinOn_append (by simpa using hroot)
      (by simpa using hwhole), String.toList_append, houterText]
    exact ⟨joinOn '/' (rest.map String.toList), by simp⟩
  · rintro (rfl | rfl | hstart)
    · exact encloses_root hr
    · exact ⟨rfl, List.prefix_refl _⟩
    · obtain ⟨rest, hrest⟩ := startsWith_iff.mp hstart
      have happend : inner.toList = outer.toList ++ '/' :: rest := by
        rw [← hrest, String.toList_append, List.append_assoc]
        rfl
      have houter := isRooted_of_append ho hi hr happend
      by_cases hroot : outer = "."
      · rw [hroot]
        exact encloses_root hr
      have hlong : inner ≠ "." := by
        rintro rfl
        have hslash : '/' ∈ ".".toList := by
          rw [happend]
          exact List.mem_append_right _ List.mem_cons_self
        exact absurd hslash (by decide)
      refine ⟨houter.trans hr.symm, ?_⟩
      rw [← ho.segments_eq_walked houter hroot, ← hi.segments_eq_walked hr hlong,
        segments_of_append ho hi happend]
      exact List.prefix_append _ _

/-- Two roots of one depth that enclose a path are the same. -/
theorem Encloses.root_unique {outer' : String} (h : Encloses outer inner)
    (h' : Encloses outer' inner) (hr : isRooted inner = false) (ho : IsNormal outer)
    (ho' : IsNormal outer') (hdepth : (walked outer).length = (walked outer').length) :
    outer = outer' := by
  rw [h.eq_written hr ho, h'.eq_written hr ho', hdepth]

instance (outer inner : String) : Decidable (Encloses outer inner) :=
  inferInstanceAs (Decidable (_ ∧ _))

end WorkspacePath

namespace ProjectRoots

-- ============================================================= nearest

/-- How many segments the root of a project has. -/
def depth (project : Project) : Nat :=
  (walked (WorkspacePath.normalize project.root)).length

/-- The root of a project encloses a path, and no root that does so is deeper. -/
def IsNearest (projects : List Project) (p : String) (project : Project) : Prop :=
  Encloses (WorkspacePath.normalize project.root) p ∧
    ∀ other ∈ projects, Encloses (WorkspacePath.normalize other.root) p →
      depth other ≤ depth project

instance (projects : List Project) (p : String) (project : Project) :
    Decidable (IsNearest projects p project) :=
  inferInstanceAs (Decidable (_ ∧ _))

/-- The projects whose roots are the longest that enclose a path, in the order in
which they are declared. -/
def nearest (projects : List Project) (p : String) : List Project :=
  projects.filter fun project => decide (IsNearest projects p project)

variable {projects : List Project} {installed p name : String}

theorem mem_nearest_iff {project : Project} :
    project ∈ nearest projects p ↔ project ∈ projects ∧ IsNearest projects p project := by
  rw [nearest, List.mem_filter, decide_eq_true_eq]

/-- Projects whose roots are the longest share their root. -/
theorem IsNearest.root_eq {project other : Project} (h : IsNearest projects p project)
    (h' : IsNearest projects p other) (hr : isRooted p = false) (hmem : project ∈ projects)
    (hmem' : other ∈ projects) :
    WorkspacePath.normalize project.root = WorkspacePath.normalize other.root :=
  h.1.root_unique h'.1 hr (isNormal_normalize _) (isNormal_normalize _)
    (Nat.le_antisymm (h'.2 project hmem h.1) (h.2 other hmem' h'.1))

/-- Where some root encloses a path, some root is the longest that does. -/
theorem nearest_eq_nil_iff :
    nearest projects p = []
      ↔ ∀ project ∈ projects, ¬ Encloses (WorkspacePath.normalize project.root) p := by
  constructor
  · intro hnil project hmem henc
    -- the deepest of the projects around the path
    let around := projects.filter fun project =>
      decide (Encloses (WorkspacePath.normalize project.root) p)
    have haround : ∀ {other}, other ∈ around
        ↔ other ∈ projects ∧ Encloses (WorkspacePath.normalize other.root) p := by
      intro other
      rw [List.mem_filter, decide_eq_true_eq]
    cases hmax : around.argmax depth with
    | none =>
        have hempty := List.argmax_eq_none.mp hmax
        have hself := haround.mpr ⟨hmem, henc⟩
        rw [hempty] at hself
        exact List.not_mem_nil hself
    | some deepest =>
        obtain ⟨hdeepest, hencloses⟩ := haround.mp (List.argmax_mem hmax)
        have hnearest : deepest ∈ nearest projects p :=
          mem_nearest_iff.mpr ⟨hdeepest, hencloses, fun other hother henc' =>
            List.le_of_mem_argmax (haround.mpr ⟨hother, henc'⟩) hmax⟩
        rw [hnil] at hnearest
        exact List.not_mem_nil hnearest
  · intro hnone
    refine List.eq_nil_iff_forall_not_mem.mpr fun project hproject => ?_
    obtain ⟨hmem, henc, -⟩ := mem_nearest_iff.mp hproject
    exact hnone project hmem henc

/-- The last of the projects with the longest root is the owner of a path. -/
theorem getLast?_nearest_iff (hr : isRooted p = false) :
    (nearest projects p).getLast?.map (·.name) = some name
      ↔ ∃ before project after, projects = before ++ project :: after ∧ project.name = name ∧
        (∀ later ∈ after,
          WorkspacePath.normalize later.root ≠ WorkspacePath.normalize project.root) ∧
        IsNearest projects p project := by
  rw [nearest, ← List.head?_reverse, ← List.filter_reverse, List.head?_filter,
    Option.map_eq_some_iff]
  constructor
  · rintro ⟨project, hfind, hname⟩
    obtain ⟨hnearest, after, before, hsplit, hafter⟩ := List.find?_eq_some_iff_append.mp hfind
    have hprojects : projects = before.reverse ++ project :: after.reverse := by
      have h := congrArg List.reverse hsplit
      simpa using h
    rw [decide_eq_true_eq] at hnearest
    refine ⟨before.reverse, project, after.reverse, hprojects, hname,
      fun later hlater heq => ?_, hnearest⟩
    have hnot := hafter later (List.mem_reverse.mp hlater)
    rw [Bool.not_eq_true', decide_eq_false_iff_not] at hnot
    refine hnot ?_
    unfold IsNearest depth at hnearest ⊢
    rw [heq]
    exact hnearest
  · rintro ⟨before, project, after, hprojects, hname, hafter, hnearest⟩
    have hmem : project ∈ projects := by
      rw [hprojects]
      simp
    refine ⟨project, List.find?_eq_some_iff_append.mpr ⟨decide_eq_true hnearest, after.reverse,
      before.reverse, by simp [hprojects], fun later hlater => ?_⟩, hname⟩
    have hlater' := List.mem_reverse.mp hlater
    have hmem' : later ∈ projects := by
      rw [hprojects]
      simp [hlater']
    rw [Bool.not_eq_true', decide_eq_false_iff_not]
    exact fun hnot => hafter later hlater' (hnot.root_eq hnearest hr hmem' hmem)

/-- Paths that start at the root of the file system, climb out of the workspace or
go through an installed directory belong to no project. Any other belongs to the
last of the projects whose roots are the longest that enclose it, and to none if
no root does. A root encloses whole segments of a path, so one that ends within a
segment of the path is not around it. -/
theorem projectOf?_eq_last_nearest (projects : List Project) (installed path : String) :
    let p := WorkspacePath.normalize (Text.withoutStart path "./")
    (ofProjects projects installed).projectOf? path
        = (if isRooted p = true ∨ (segments p).head? = some ".." ∨ installed ∈ segments p then none
          else (nearest projects p).getLast?.map (·.name)) ∧
      (nearest projects p = []
        ↔ ∀ project ∈ projects, ¬ Encloses (WorkspacePath.normalize project.root) p) ∧
      (isRooted p = false → ∀ root, Encloses (WorkspacePath.normalize root) p
        ↔ WorkspacePath.normalize root = "." ∨ WorkspacePath.normalize root = p ∨
          startsWith p (WorkspacePath.normalize root ++ "/") = true) := by
  intro p
  have hp : IsNormal p := isNormal_normalize _
  refine ⟨Option.ext fun name => ?_, nearest_eq_nil_iff, fun hr root =>
    encloses_iff_text (isNormal_normalize root) hp hr⟩
  rw [projectOf?_iff]
  show Owns projects installed p name ↔ _
  by_cases hout : isRooted p = true ∨ (segments p).head? = some ".." ∨ installed ∈ segments p
  · rw [if_pos hout]
    refine iff_of_false (fun howns => ?_) (Option.some_ne_none name).symm
    rcases hout with hrooted | hclimbs | hinstalled
    · rw [howns.unrooted] at hrooted
      cases hrooted
    · exact howns.inside hclimbs
    · exact howns.uninstalled hinstalled
  · rw [if_neg hout]
    obtain ⟨hrooted, hclimbs, hinstalled⟩ := not_or.mp hout |>.imp_right not_or.mp
    rw [Bool.not_eq_true] at hrooted
    rw [getLast?_nearest_iff hrooted]
    exact ⟨fun howns => howns.nearest,
      fun hnearest => ⟨hp, hrooted, hclimbs, hinstalled, hnearest⟩⟩

/-- A project does not own the paths below a directory whose name is a longer one. -/
theorem projectOf?_beside_longer_name :
    let projects : List Project := [.ofRoot "ws" "" none, .ofRoot "app1" "apps/app1/" none]
    isRooted "apps/app10/x.ts" = false ∧
      (ofProjects projects "node_modules").projectOf? "./apps/app10/x.ts" = some "ws" ∧
      ¬ Encloses (WorkspacePath.normalize "apps/app1/") "apps/app10/x.ts" := by
  intro projects
  have hr : isRooted "apps/app10/x.ts" = false := by decide
  obtain ⟨hfound, -, htext⟩ :=
    projectOf?_eq_last_nearest projects "node_modules" "./apps/app10/x.ts"
  have hp : WorkspacePath.normalize (Text.withoutStart "./apps/app10/x.ts" "./")
      = "apps/app10/x.ts" := by decide
  rw [hp] at hfound htext
  refine ⟨hr, hfound.trans (by decide), ?_⟩
  rw [htext hr "apps/app1/"]
  decide

end ProjectRoots

end ImportResolution
