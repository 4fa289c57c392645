/-
Relative imports. The workspace goes from the directory of the importing file, as a path
from the root of the workspace that may climb out of it; a module search goes from the
directory around the file, as a path of files that cannot climb out of the root of the file
system. The two directories are one place (`clean_importingDirectory_join`), and what is
joined to them leads to one place again, whatever is carried out first. So the path that
decides for which project a relative import counts is the path that both searches try
(`relative_imports_agree`).
-/
import ImportResolution.Locator.Resolve
import ImportResolution.Proofs.FilePath.NormalForms
import ImportResolution.Proofs.ModuleSearch.Detours

namespace ImportResolution

open FilePath (clean clean_eq_iff fileName? isAbsolute join settled steps)
open WorkspacePath (IsNormal directory isRelative isRooted walked)

variable {p root file name specifier : String}

-- ========================================================== directories

namespace WorkspacePath

/-- A relative specifier does not start at the root of the file system. -/
theorem isAbsolute_of_isRelative (h : isRelative specifier = true) :
    isAbsolute specifier = false := by
  have hdot {dots rest : String} (hdots : dots.toList.head? = some '.') :
      isAbsolute (dots ++ rest) = false := by
    obtain ⟨more, hmore⟩ := List.head?_eq_some_iff.mp hdots
    rw [isAbsolute, ← Bool.not_eq_true, Text.startsWith_iff, String.toList_append, hmore]
    rintro ⟨cs, hcs⟩
    exact absurd (List.head_eq_of_cons_eq hcs) (by decide)
  rw [isRelative, Bool.or_eq_true, Bool.or_eq_true, Bool.or_eq_true, beq_iff_eq, beq_iff_eq] at h
  rcases h with ((rfl | rfl) | hstart) | hstart
  · rfl
  · rfl
  · obtain ⟨rest, rfl⟩ := Text.exists_append_of_startsWith hstart
    exact hdot rfl
  · obtain ⟨rest, rfl⟩ := Text.exists_append_of_startsWith hstart
    exact hdot rfl

/-- Before the last segment of a path in normal form stands its directory. -/
theorem IsNormal.exists_directory (h : IsNormal p) (hr : isRooted p = false)
    (hne : walked p ≠ []) :
    ∃ last, walked p = walked (directory p) ++ [last] ∧ IsNormal (directory p) ∧
      isRooted (directory p) = false := by
  obtain ⟨parts, last, hparts⟩ := (List.eq_nil_or_concat (walked p)).resolve_left hne
  rw [List.concat_eq_append] at hparts
  have hwalked := walked_walked p
  have hwritten := h.written_eq
  rw [hr, hparts] at hwalked hwritten
  rw [hparts, ← hwritten, hwalked.directory_written, hwalked.dropLast.walked_written]
  exact ⟨last, rfl, hwalked.dropLast.isNormal_written, hwalked.dropLast.isRooted_written⟩

end WorkspacePath

namespace FilePath

theorem fileName?_join (base : String) (hrest : isAbsolute p = false)
    (h : fileName? p = some name) : fileName? (join base p) = some name := by
  by_cases hbase : base = ""
  · rw [hbase, join_empty, h]
  · rw [fileName?_eq_some_iff] at h ⊢
    have hsteps : (steps p.toList).getLast? = some (.name name) := by
      rw [components_eq, List.getLast?_append] at h
      refine (Option.or_eq_some_iff.mp h).resolve_right fun ⟨_, hlead⟩ => ?_
      -- no start is a name
      rw [leadComponent?] at hlead
      rcases lead_cases p.toList with hstart | hstart | hstart
      all_goals rw [hstart] at hlead; cases hlead
    rw [components_join hbase hrest, List.getLast?_append, hsteps, Option.some_or]

/-- A file lies in the directory from which its imports are searched. -/
theorem settled_eq_importingDirectory (h : fileName? p = some name) :
    settled p = settled (ModuleSearch.importingDirectory p) ++ [.name name] := by
  obtain ⟨dir, hdir, hsettled⟩ := exists_parent?_of_fileName? h
  rw [ModuleSearch.importingDirectory, hdir, Option.getD_some, hsettled]

/-- A file of the workspace lies in the directory that its path names. -/
theorem settled_eq_directory (hfile : IsNormal file) (hrooted : isRooted file = false)
    (h : fileName? file = some name) :
    settled file = settled (directory file) ++ [.name name] ∧ IsNormal (directory file) ∧
      isRooted (directory file) = false := by
  obtain ⟨before, -, hsettled⟩ := settled_of_fileName? h
  have hwalked := settled_of_isNormal hfile hrooted
  have hne : walked file ≠ [] := fun hnil => by
    rw [hnil, hsettled] at hwalked
    exact List.append_ne_nil_of_right_ne_nil _ (List.cons_ne_nil _ _) hwalked
  obtain ⟨last, hlast, hnormal, hrooted'⟩ := hfile.exists_directory hrooted hne
  refine ⟨?_, hnormal, hrooted'⟩
  rw [hlast, List.map_append, ← settled_of_isNormal hnormal hrooted'] at hwalked
  rw [hwalked] at hsettled ⊢
  rw [(List.append_inj' hsettled rfl).2]

end FilePath

namespace ModuleSearch

/-- The directory that a search starts from is the directory that the path of the importing
file names. -/
theorem clean_importingDirectory_join (root : String) (hfile : IsNormal file)
    (hrooted : isRooted file = false) (h : fileName? file = some name) :
    clean (importingDirectory (join root file)) = clean (join root (directory file)) := by
  have hfile' : isAbsolute file = false :=
    (FilePath.isAbsolute_of_isNormal hfile).trans hrooted
  obtain ⟨hdirectory, hnormal, hrooted'⟩ := FilePath.settled_eq_directory hfile hrooted h
  have hdirectory' : isAbsolute (directory file) = false :=
    (FilePath.isAbsolute_of_isNormal hnormal).trans hrooted'
  have hjoin : settled (join root file) = settled (join root (directory file)) ++ [.name name] := by
    rw [FilePath.settled_join hfile', ← FilePath.foldl_settle_settled hfile', hdirectory,
      List.foldl_append, FilePath.foldl_settle_settled hdirectory',
      FilePath.settled_join hdirectory']
    exact List.reverse_cons
  rw [FilePath.settled_eq_importingDirectory (FilePath.fileName?_join root hfile' h)] at hjoin
  exact clean_eq_iff.mpr (List.append_cancel_right hjoin)

/-- A relative import means one path to the workspace and to the searches: below any root,
the path that it leads to in the workspace is the one that it leads to from the directory
around the importing file, and this is the path at which both searches look for a file. -/
theorem relative_imports_agree (root : String) (hfile : IsNormal file)
    (hrooted : isRooted file = false) (hname : fileName? file = some name)
    (hrelative : isRelative specifier = true) (hslash : '\\' ∉ specifier.toList) :
    let target := clean (join root (Locator.relativeTarget specifier file))
    target = clean (join (importingDirectory (join root file)) specifier) ∧
      (∀ installed, Runtime.resolve installed specifier (join root file)
        = orNotFound specifier <$> load Runtime.spelling target) ∧
      ∀ installed config, Compiler.resolve installed config specifier (join root file)
        = orNotFound specifier <$> load Compiler.spelling target := by
  intro target
  obtain ⟨-, hnormal, hrooted'⟩ := FilePath.settled_eq_directory hfile hrooted hname
  have hdirectory : isAbsolute (directory file) = false :=
    (FilePath.isAbsolute_of_isNormal hnormal).trans hrooted'
  have hspecifier : isAbsolute specifier = false := WorkspacePath.isAbsolute_of_isRelative hrelative
  have htarget : target = clean (join (importingDirectory (join root file)) specifier) := by
    have hworkspace := FilePath.clean_join_workspace_join root hdirectory hnormal.backslash_not_mem
      hspecifier hslash
    rw [FilePath.clean_join_congr (clean_importingDirectory_join root hfile hrooted hname)]
    exact hworkspace
  have hpath : isPath specifier = true := by rw [isPath, hrelative, Bool.true_or]
  refine ⟨htarget, fun installed => ?_, fun installed config => ?_⟩
  · rw [htarget, Runtime.resolve]
    simp only [hpath, if_true]
    rfl
  · rw [htarget, Compiler.resolve]
    simp only [hpath, if_true]
    rfl

/-- A file that lies outside the root, and a specifier that climbs out of the root of the
file system. -/
theorem relative_imports_agree_outside :
    IsNormal "../../x/y.ts" ∧ isRooted "../../x/y.ts" = false ∧
      fileName? "../../x/y.ts" = some "y.ts" ∧ isRelative "../../z" = true ∧
      '\\' ∉ "../../z".toList ∧
      let target := clean (join "/ws/./a" (Locator.relativeTarget "../../z" "../../x/y.ts"))
      target = clean (join (importingDirectory (join "/ws/./a" "../../x/y.ts")) "../../z") ∧
        (∀ installed, Runtime.resolve installed "../../z" (join "/ws/./a" "../../x/y.ts")
          = orNotFound "../../z" <$> load Runtime.spelling target) ∧
        ∀ installed config, Compiler.resolve installed config "../../z"
            (join "/ws/./a" "../../x/y.ts")
          = orNotFound "../../z" <$> load Compiler.spelling target := by
  have hfile : IsNormal "../../x/y.ts" := by
    rw [IsNormal]
    decide +kernel
  have hrooted : isRooted "../../x/y.ts" = false := by decide
  have hname : fileName? "../../x/y.ts" = some "y.ts" := by decide +kernel
  have hrelative : isRelative "../../z" = true := by decide
  have hslash : '\\' ∉ "../../z".toList := by decide
  exact ⟨hfile, hrooted, hname, hrelative, hslash,
    relative_imports_agree "/ws/./a" hfile hrooted hname hrelative hslash⟩

example : clean (join "/ws/./a" (Locator.relativeTarget "../../z" "../../x/y.ts")) = "/z" := by
  decide +kernel

end ModuleSearch

end ImportResolution
