/-
The searches of the compiler and of the runtime only look, and a package whose
descriptor is missing is to them as one whose descriptor says nothing
(`PackageFiles.Lenient`): which file a specifier means depends on the files
alone, not on the descriptors that earlier searches have left in memory, and of
a descriptor that cannot be understood it depends in no way.
-/
import ImportResolution.ModuleSearch.Compiler
import ImportResolution.ModuleSearch.Runtime
import ImportResolution.Proofs.PackageFiles

namespace ImportResolution.ModuleSearch

variable {α : Type}

open PackageFiles (Lenient)

-- ============================================================ searches

theorem lenient_firstFile? (paths : List String) : Lenient (firstFile? paths) :=
  Lenient.files (f := fun s => paths.find? s.isFile) fun s t h => by rw [h.1]

theorem lenient_hasDirectory (path : String) : Lenient (hasDirectory path) :=
  Lenient.files (f := fun s => s.isDirectory path) fun s t h => by rw [h.2]

/-- The first of several searches that finds something is lenient if all of them
are. -/
theorem lenient_firstFound? {searches : List (Search (Option α))}
    (h : ∀ search ∈ searches, Lenient search) :
    Lenient (firstFound? searches) := by
  induction searches with
  | nil => exact Lenient.pure none
  | cons search rest ih =>
      refine Lenient.bind (h search (List.mem_cons_self ..)) fun found => ?_
      cases found with
      | some a => exact Lenient.pure (some a)
      | none => exact ih fun search hs => h search (List.mem_cons_of_mem _ hs)

theorem lenient_looksInto (spelling : Spelling) (dir : String) :
    Lenient (looksInto spelling dir) := by
  unfold looksInto
  split
  · exact lenient_hasDirectory dir
  · exact Lenient.pure true

section Spelling

variable {spelling : Spelling} (hblank : spelling.entries .blank = [])

include hblank

/-- A directory whose package has no entry stands for its index file. -/
theorem lenient_loadDirectory (dir : String) : Lenient (loadDirectory spelling dir) := by
  refine Lenient.bind (lenient_looksInto spelling dir) fun into => ?_
  cases into with
  | false => exact Lenient.pure none
  | true =>
      refine Lenient.descriptorIn dir ?_ fun _ => lenient_firstFile? _
      simp only [hblank]

theorem lenient_load (path : String) : Lenient (load spelling path) := by
  refine lenient_firstFound? fun search hs => ?_
  simp only [List.mem_cons, List.not_mem_nil, or_false] at hs
  rcases hs with rfl | rfl
  · exact lenient_firstFile? _
  · exact lenient_loadDirectory hblank path

end Spelling

-- ============================================================ resolvers

namespace Compiler

theorem lenient_throughAliases? (config : CompilerConfig) (specifier : String) :
    Lenient (throughAliases? config specifier) := by
  refine lenient_firstFound? fun search hs => ?_
  obtain ⟨target, -, rfl⟩ := List.mem_map.mp hs
  exact lenient_load rfl _

theorem lenient_fromBaseUrl? (config : CompilerConfig) (specifier : String) :
    Lenient (fromBaseUrl? config specifier) := by
  unfold fromBaseUrl?
  cases config.baseUrl with
  | none => exact Lenient.pure none
  | some base => exact lenient_load rfl _

theorem lenient_level? (installed specifier dir : String) :
    Lenient (level? installed specifier dir) := by
  refine Lenient.bind (lenient_hasDirectory _) fun there => ?_
  cases there with
  | false => exact Lenient.pure none
  | true =>
      refine lenient_firstFound? fun search hs => ?_
      simp only [List.mem_cons, List.not_mem_nil, or_false] at hs
      rcases hs with rfl | rfl
      · exact lenient_load rfl _
      · exact lenient_load rfl _

theorem lenient_resolve (installed : String) (config : CompilerConfig) (specifier file : String) :
    Lenient (resolve installed config specifier file) := by
  simp only [resolve]
  split
  · exact Lenient.bind (lenient_load rfl _) fun _ => Lenient.pure _
  · refine Lenient.bind (lenient_firstFound? fun search hs => ?_) fun _ => Lenient.pure _
    simp only [List.mem_cons, List.mem_map] at hs
    rcases hs with rfl | rfl | ⟨dir, -, rfl⟩
    · exact lenient_throughAliases? config specifier
    · exact lenient_fromBaseUrl? config specifier
    · exact lenient_level? installed specifier dir

end Compiler

namespace Runtime

theorem lenient_offering? (packageDir : String) : Lenient (offering? packageDir) := by
  refine Lenient.descriptorIn packageDir rfl fun found => ?_
  cases found with
  | none => exact Lenient.pure none
  | some descriptor => exact Lenient.pure _

theorem lenient_deciding? (specifier packageDir : String) :
    Lenient (deciding? specifier packageDir) := by
  unfold deciding?
  split
  · exact lenient_offering? packageDir
  · exact Lenient.pure none

theorem lenient_offered? (packageDir : String) (descriptor : PackageDescriptor) :
    Lenient (offered? packageDir descriptor) := by
  unfold offered?
  cases descriptor.rootTarget? conditions with
  | none => exact Lenient.pure none
  | some target => exact lenient_firstFile? _

theorem lenient_level? (installed specifier origin dir : String) :
    Lenient (level? installed specifier origin dir) := by
  simp only [level?]
  split
  · exact Lenient.pure none
  · refine Lenient.bind (lenient_hasDirectory _) fun there => ?_
    split
    · refine Lenient.bind (lenient_deciding? specifier _) fun found => ?_
      cases found with
      | none => exact Lenient.bind (lenient_load rfl _) fun _ => Lenient.pure _
      | some descriptor =>
          refine Lenient.bind (lenient_offered? _ descriptor) fun target => ?_
          cases target <;> exact Lenient.pure _
    · exact Lenient.pure none

theorem lenient_resolve (installed specifier file : String) :
    Lenient (resolve installed specifier file) := by
  simp only [resolve]
  split
  · exact Lenient.bind (lenient_load rfl _) fun _ => Lenient.pure _
  · refine Lenient.bind (lenient_firstFound? fun search hs => ?_) fun found => ?_
    · obtain ⟨dir, -, rfl⟩ := List.mem_map.mp hs
      exact lenient_level? _ _ _ dir
    · cases found <;> exact Lenient.pure _

end Runtime

end ImportResolution.ModuleSearch
