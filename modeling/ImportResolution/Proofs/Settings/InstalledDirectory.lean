/-
The name of installed directories. It is joined to many directories, and paths through it
are kept from every project, so it should be one level of its own: joined to a directory it
should lead to a directory of that name directly in it (`OneLevel`), and no path that leads
there should belong to a project (`ShutsOut`).

The check of the settings refuses the empty name and every separator. What is left is a name,
or one of the two segments that are no names (`isDirectoryName_iff`). With a name both hold,
wherever it is joined; with `.` or `..` neither does (`installedDirectory_one_level_iff`):
they lead to the directory itself or out of it, and the normal form of a path that goes down
from the root of the workspace has neither for a segment by which it could be kept out.
-/
import ImportResolution.Proofs.FilePath.Names
import ImportResolution.Proofs.FilePath.NormalForms
import ImportResolution.Proofs.ProjectRoots.Nearest
import ImportResolution.Proofs.Settings.Overrides
import ImportResolution.Proofs.WorkspacePath.Joins
import ImportResolution.Settings.Document

namespace ImportResolution

-- ========================================================= single names

namespace FilePath

variable {dir name : String}

/-- A path is a single name if it is no segment of dots and has no slash. -/
theorem components_eq_name_iff :
    components name = [.name name] ↔
      name ≠ "" ∧ name ≠ "." ∧ name ≠ ".." ∧ '/' ∉ name.toList := by
  constructor
  · intro h
    have hsteps : steps name.toList = [.name name] := (plain_of_name h).steps_eq.trans h
    have hstep : IsStep (.name name) :=
      isStep_of_mem_steps (hsteps ▸ List.mem_singleton_self (Component.name name))
    refine ⟨?_, ?_, ?_, hstep.2⟩
    all_goals
      intro heq
      rw [heq] at h
      revert h
      decide
  · intro ⟨hempty, hcurrent, hup, hslash⟩
    have hname : IsName name.toList := by
      rw [isName_iff, ne_eq, ne_eq, ne_eq, String.toList_eq_nil_iff]
      exact ⟨hempty, fun h => hcurrent (String.toList_inj.mp h),
        fun h => hup (String.toList_inj.mp h)⟩
    rw [(ofNames_of_not_mem hslash hname).components_eq, steps, Text.splitOn_of_not_mem hslash,
      List.filterMap_cons_some hname.ofSegment?_eq, String.ofList_toList]
    rfl

/-- The path is what has this name directly in the directory. -/
structure IsChild (dir name child : String) : Prop where
  parent : parent? child = some dir
  named : fileName? child = some name

/-- A single name leads down by one level. -/
theorem isChild_clean_join (h : components name = [.name name]) (dir : String) :
    IsChild (clean dir) name (clean (join dir name)) where
  parent := parent?_clean_of_stays (settled_join_name h) Component.noConfusion
  named := by
    apply fileName?_of_name
    rw [components_clean, settled_join_name h]

end FilePath

namespace WorkspacePath

variable {name p : String}

/-- A single name is walked down to. -/
theorem location_of_name (h : FilePath.components name = [.name name])
    (hslash : '\\' ∉ name.toList) : location name = .relative 0 [name] := by
  obtain ⟨hempty, hcurrent, hup, hsep⟩ := FilePath.components_eq_name_iff.mp h
  have hrooted : isRooted name = false := by
    rw [← FilePath.isAbsolute_eq_isRooted hslash]
    exact (FilePath.plain_of_name h).isAbsolute_eq
  have hsegments : segments name = [name] := by
    rw [segments, slashed_of_no_backslash hslash, Text.pieces, Text.splitOn_of_not_mem hsep,
      List.map_singleton, String.ofList_toList]
  rw [location_eq, hrooted, hsegments]
  exact Location.enter_of_isProper _ ⟨hempty, hcurrent, hsep, hslash⟩ hup

/-- So it stays at the end of what it is joined to. -/
theorem mem_walked_join (h : FilePath.components name = [.name name])
    (hslash : '\\' ∉ name.toList) (dir : String) : name ∈ walked (join dir name) := by
  have hrooted : isRooted name = false := by
    rw [← isAbsolute_location, location_of_name h hslash]
    rfl
  rw [walked_eq, location_join hrooted, location_of_name h hslash, List.mem_reverse]
  show name ∈ ((location dir).down name).kept
  cases location dir with
  | absolute names => exact List.mem_cons_self ..
  | relative climbs names => exact List.mem_cons_self ..

/-- The path leads to what has the name in some directory, or to anything in that. -/
def LeadsInto (name p : String) : Prop :=
  ∃ dir, Encloses (join dir name) p

end WorkspacePath

namespace Settings

open FilePath (IsChild clean components components_eq_name_iff isAbsolute join)
open ProjectRoots (ofProjects)
open WorkspacePath (LeadsInto ofGiven)

variable {name : String} {s : Settings}

-- ========================================================== the demands

/-- Joined to a directory the name leads to a directory of that name directly in it. -/
def OneLevel (name : String) : Prop :=
  ∀ dir, isAbsolute dir = true → IsChild (clean dir) name (clean (join dir name))

/-- No path that leads through a directory of the name belongs to a project. -/
def ShutsOut (name : String) : Prop :=
  ∀ projects path, LeadsInto name (ofGiven path) →
    (ofProjects projects name).projectOf? path = none

/-- The check lets single names pass, and the two segments of dots. -/
theorem isDirectoryName_iff :
    isDirectoryName name = true ↔
      (components name = [.name name] ∧ '\\' ∉ name.toList) ∨ name = "." ∨ name = ".." := by
  have hcheck : isDirectoryName name = true ↔
      name ≠ "" ∧ '/' ∉ name.toList ∧ '\\' ∉ name.toList := by
    simp [isDirectoryName, and_assoc]
  rw [hcheck, components_eq_name_iff]
  constructor
  · intro ⟨hempty, hslash, hbackslash⟩
    by_cases hcurrent : name = "."
    · exact Or.inr (Or.inl hcurrent)
    · by_cases hup : name = ".."
      · exact Or.inr (Or.inr hup)
      · exact Or.inl ⟨⟨hempty, hcurrent, hup, hslash⟩, hbackslash⟩
  · intro h
    rcases h with ⟨⟨hempty, -, -, hslash⟩, hbackslash⟩ | rfl | rfl
    · exact ⟨hempty, hslash, hbackslash⟩
    · decide
    · decide

-- ================================================================ names

theorem shutsOut_of_name (h : components name = [.name name]) (hslash : '\\' ∉ name.toList) :
    ShutsOut name := by
  intro projects path hleads
  obtain ⟨dir, -, henclosed⟩ := hleads
  have hmem : name ∈ WorkspacePath.walked (ofGiven path) :=
    henclosed.subset (WorkspacePath.mem_walked_join h hslash dir)
  apply Option.eq_none_iff_forall_ne_some.mpr
  intro project hproject
  have howns := ProjectRoots.projectOf?_iff.mp hproject
  -- only the root of the workspace is written with a segment that is not walked
  have hroot : ofGiven path ≠ "." := by
    intro hroot
    have hnone : WorkspacePath.walked "." = [] := by decide
    rw [hroot, hnone] at hmem
    cases hmem
  apply howns.uninstalled
  rw [howns.normal.segments_eq_walked howns.unrooted hroot]
  exact hmem

-- ================================================================= dots

theorem not_oneLevel_of_dots (h : name = "." ∨ name = "..") : ¬ OneLevel name := by
  intro hlevel
  have hparent := (hlevel "/" rfl).parent
  rcases h with rfl | rfl
  · exact absurd hparent (by decide)
  · exact absurd hparent (by decide)

theorem not_shutsOut_of_dots (h : name = "." ∨ name = "..") : ¬ ShutsOut name := by
  intro hshut
  have hnone := hshut [.ofRoot "app" "app" none] "app"
  rcases h with rfl | rfl
  · have hleads : LeadsInto "." (ofGiven "app") := ⟨"app", by decide⟩
    exact absurd (hnone hleads) (by decide)
  · have hleads : LeadsInto ".." (ofGiven "app") := ⟨"app/src", by decide⟩
    exact absurd (hnone hleads) (by decide)

-- ============================================================ the check

/-- In settings that pass the check the name of installed directories is one level, and it
keeps the paths through it from every project, exactly if it is neither `.` nor `..`. And
the check refuses no single name without a backslash. -/
theorem installedDirectory_one_level_iff (s : Settings) :
    (s.validate = .ok s →
      (OneLevel s.installedDirectory ↔
        s.installedDirectory ≠ "." ∧ s.installedDirectory ≠ "..") ∧
      (ShutsOut s.installedDirectory ↔
        s.installedDirectory ≠ "." ∧ s.installedDirectory ≠ "..")) ∧
    (components s.installedDirectory = [.name s.installedDirectory] →
      '\\' ∉ s.installedDirectory.toList →
      ∀ reason, s.validate ≠ .error (.invalidField "resolver.installed-dir" reason)) := by
  constructor
  · intro hvalid
    have hname := isDirectoryName_iff.mp ((validate_eq_ok_iff.mp hvalid).2 .installedDirectory)
    rw [← not_or]
    rcases hname with ⟨hname, hslash⟩ | hdots
    · have hordinary : ¬ (s.installedDirectory = "." ∨ s.installedDirectory = "..") := by
        obtain ⟨-, hcurrent, hup, -⟩ := components_eq_name_iff.mp hname
        exact not_or.mpr ⟨hcurrent, hup⟩
      exact ⟨iff_of_true (fun dir _ => FilePath.isChild_clean_join hname dir) hordinary,
        iff_of_true (shutsOut_of_name hname hslash) hordinary⟩
    · exact ⟨iff_of_false (not_oneLevel_of_dots hdots) (not_not.mpr hdots),
        iff_of_false (not_shutsOut_of_dots hdots) (not_not.mpr hdots)⟩
  · intro hname hslash reason
    have hpasses : isDirectoryName s.installedDirectory = true :=
      isDirectoryName_iff.mpr (Or.inl ⟨hname, hslash⟩)
    unfold validate
    rw [if_neg (by simp [hpasses])]
    split
    · intro h
      have hfield := (Fault.invalidField.inj (Except.error.inj h)).1
      exact absurd hfield (by decide)
    · intro h
      cases h

/-- A name of dots that is no segment of dots. -/
theorem installedDirectory_one_level_iff_dots :
    let s := { standard with installedDirectory := "..." }
    s.validate = .ok s ∧ components s.installedDirectory = [.name s.installedDirectory] ∧
      '\\' ∉ s.installedDirectory.toList ∧ OneLevel "..." ∧ ShutsOut "..." ∧
      ∀ reason, s.validate ≠ .error (.invalidField "resolver.installed-dir" reason) := by
  intro s
  have hvalid : s.validate = .ok s := by decide +kernel
  have hname : components s.installedDirectory = [.name s.installedDirectory] := by decide
  have hslash : '\\' ∉ s.installedDirectory.toList := by decide
  have hordinary : s.installedDirectory ≠ "." ∧ s.installedDirectory ≠ ".." := by decide
  obtain ⟨hiff, hpasses⟩ := installedDirectory_one_level_iff s
  obtain ⟨hlevel, hshut⟩ := hiff hvalid
  exact ⟨hvalid, hname, hslash, hlevel.mpr hordinary, hshut.mpr hordinary, hpasses hname hslash⟩

/-- The check lets `..` pass, with which what is installed for a directory would be beside
it, and paths through it belong to projects. -/
theorem installedDirectory_above :
    let s := { standard with installedDirectory := ".." }
    let roots := ofProjects [.ofRoot "lib" "libs/a" none] s.installedDirectory
    parse "[resolver]\ninstalled-dir = \"..\"\n" = .ok s ∧ s.validate = .ok s ∧
      isAbsolute "/ws/app" = true ∧ clean (join "/ws/app" s.installedDirectory) = "/ws" ∧
      FilePath.parent? "/ws" ≠ some (clean "/ws/app") ∧
      LeadsInto s.installedDirectory (ofGiven "libs/b/../a/x.ts") ∧
      roots.projectOf? "libs/b/../a/x.ts" = some "lib" := by
  intro s roots
  refine ⟨by decide +kernel, by decide +kernel, by decide, by decide +kernel, by decide +kernel,
    ⟨"libs/b", by decide +kernel⟩, by decide +kernel⟩

end Settings

end ImportResolution
