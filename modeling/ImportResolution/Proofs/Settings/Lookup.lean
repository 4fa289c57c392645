/-
Where the settings of a directory are found. They should be those of the directory
that is meant, or of the nearest one around it, however it is spelled
(`FoundAround`, `RootAround`). The search goes up from the directory as it is
spelled, though, and where the spelling has a `..` it may pass directories that do
not lie around the one that is meant.

Whatever the files are, it does what it should exactly if the directory is spelled
directly (`lookup_around_iff`). A direct walk finds what the walk from the cleaned
directory finds, under another spelling. Any other walk passes a directory off the
way, and a single file in it is enough: it is found, and the workspace is rooted
there (`Nearest.clean_workspaceRoot`), though no file governs.
-/
import ImportResolution.Proofs.FileStore
import ImportResolution.Settings.Lookup

namespace ImportResolution

open FilePath (Direct ancestors clean components isAbsolute join parent?)

namespace FilePath

variable {dir name text : String}

/-- The parent of a name in a directory is the directory. -/
theorem exists_parent?_join_name (h : components name = [.name text]) (dir : String) :
    ∃ parent, parent? (join dir name) = some parent ∧ clean parent = clean dir := by
  have hplain := plain_of_name h
  have hcomponents : components (join dir name) = components dir ++ [.name text] := by
    by_cases hdir : dir = ""
    · rw [hdir, join_empty, h]
      rfl
    · rw [components_join hdir hplain.isAbsolute_eq, hplain.steps_eq, h]
  obtain ⟨parent, hparent, heq⟩ := exists_parent?_of_concat hcomponents Component.noConfusion
  exact ⟨parent, hparent, by rw [clean, clean, settled, settled, heq]⟩

end FilePath

namespace Settings

variable {s : FileStore} {name text start cwd dir path : String}

-- ============================================================== holders

/-- Going outwards from a directory, itself included, this is the first that holds a
file of the name. -/
def Nearest (s : FileStore) (name start dir : String) : Prop :=
  ∃ inner outer, ancestors start = inner ++ dir :: outer ∧ s.isFile (join dir name) = true ∧
    ∀ d ∈ inner, s.isFile (join d name) = false

/-- A directory from this one outwards holds a file of the name. -/
def Held (s : FileStore) (name start : String) : Prop :=
  ∃ d ∈ ancestors start, s.isFile (join d name) = true

instance (s : FileStore) (name start : String) : Decidable (Held s name start) :=
  inferInstanceAs (Decidable (∃ d ∈ ancestors start, s.isFile (join d name) = true))

theorem findFile?_eq_some_iff :
    findFile? s start name = some path ↔
      ∃ dir, Nearest s name start dir ∧ join dir name = path := by
  have hheld (d : String) : ([name].map (join d)).find? s.isFile = some path ↔
      s.isFile (join d name) = true ∧ join d name = path := by
    rw [List.map_singleton, List.find?_singleton, Option.ite_none_right_eq_some, Option.some.injEq]
  have hmissing (d : String) : ([name].map (join d)).find? s.isFile = none ↔
      s.isFile (join d name) = false := by
    rw [List.map_singleton, List.find?_singleton, ite_eq_right_iff, Bool.eq_false_iff]
    exact forall_congr' fun _ => iff_of_false nofun id
  rw [findFile?, FileStore.findUpwards?, List.findSome?_eq_some_iff]
  simp only [hheld, hmissing]
  constructor
  · rintro ⟨inner, dir, outer, hwalk, ⟨hfile, hpath⟩, hinner⟩
    exact ⟨dir, ⟨inner, outer, hwalk, hfile, hinner⟩, hpath⟩
  · rintro ⟨dir, ⟨inner, outer, hwalk, hfile, hinner⟩, hpath⟩
    exact ⟨inner, dir, outer, hwalk, ⟨hfile, hpath⟩, hinner⟩

theorem findFile?_eq_none_iff : findFile? s start name = none ↔ ¬ Held s name start := by
  rw [findFile?, FileStore.findUpwards?_eq_none_iff, Held, not_exists]
  refine forall_congr' fun d => ?_
  rw [List.forall_mem_singleton, not_and, Bool.not_eq_true]

theorem exists_findFile?_iff :
    (∃ path, findFile? s start name = some path) ↔ Held s name start := by
  rw [← Option.ne_none_iff_exists', ne_eq, findFile?_eq_none_iff, not_not]

theorem Nearest.held (h : Nearest s name start dir) : Held s name start :=
  exists_findFile?_iff.mp ⟨_, findFile?_eq_some_iff.mpr ⟨dir, h, rfl⟩⟩

theorem Nearest.mem (h : Nearest s name start dir) : dir ∈ ancestors start := by
  obtain ⟨inner, outer, hwalk, -, -⟩ := h
  rw [hwalk]
  exact List.mem_append_right _ (List.mem_cons_self ..)

theorem components_fileName : components fileName = [.name fileName] := by
  decide

/-- The root of the workspace is the directory that the walk finds a file in. -/
theorem Nearest.clean_workspaceRoot (h : Nearest s fileName cwd dir) :
    clean (workspaceRoot s cwd) = clean dir := by
  obtain ⟨parent, hparent, hclean⟩ := FilePath.exists_parent?_join_name components_fileName dir
  rw [workspaceRoot, findFile?_eq_some_iff.mpr ⟨dir, h, rfl⟩]
  dsimp only
  rw [hparent, Option.getD_some, hclean]

theorem workspaceRoot_of_not_held (h : ¬ Held s fileName cwd) : workspaceRoot s cwd = cwd := by
  rw [workspaceRoot, findFile?_eq_none_iff.mpr h]

-- ================================================ what should be found

/-- A file of the name is found exactly if the directory that is meant or one around
it holds one, and what is found is that of the nearest such directory. -/
structure FoundAround (s : FileStore) (name cwd : String) : Prop where
  found_iff : (∃ path, findFile? s cwd name = some path) ↔ Held s name (clean cwd)
  nearest : ∀ path dir, findFile? s cwd name = some path → Nearest s name (clean cwd) dir →
    clean path = clean (join dir name)

/-- The root of the workspace is the directory of the nearest settings file from the
directory that is meant outwards, and the directory itself if there is none. -/
structure RootAround (s : FileStore) (cwd : String) : Prop where
  nearest : ∀ dir, Nearest s fileName (clean cwd) dir → clean (workspaceRoot s cwd) = dir
  itself : ¬ Held s fileName (clean cwd) → workspaceRoot s cwd = cwd

-- ========================================================= direct walks

section

variable (h : Direct cwd)

include h

/-- A direct walk finds what the walk from the cleaned directory finds. -/
theorem findFile?_of_direct (s : FileStore) (name : String) :
    (findFile? s cwd name).map clean = (findFile? s (clean cwd) name).map clean :=
  FileStore.findUpwards?_of_direct h s [name]

theorem held_of_direct : Held s name cwd ↔ Held s name (clean cwd) := by
  rw [← not_iff_not, ← findFile?_eq_none_iff, ← findFile?_eq_none_iff,
    ← Option.map_eq_none_iff (f := clean), findFile?_of_direct h, Option.map_eq_none_iff]

theorem foundAround_of_direct (s : FileStore) (name : String) : FoundAround s name cwd where
  found_iff := exists_findFile?_iff.trans (held_of_direct h)
  nearest := by
    intro path dir hpath hnearest
    have hclean := findFile?_of_direct h s name
    rw [hpath, findFile?_eq_some_iff.mpr ⟨dir, hnearest, rfl⟩] at hclean
    exact Option.some.inj hclean

theorem rootAround_of_direct (s : FileStore) : RootAround s cwd where
  nearest := by
    intro dir hnearest
    obtain ⟨path, hpath⟩ :=
      exists_findFile?_iff.mpr ((held_of_direct h).mpr hnearest.held)
    obtain ⟨found, hfound, hjoin⟩ := findFile?_eq_some_iff.mp hpath
    have hfile := (foundAround_of_direct h s fileName).nearest path dir hpath hnearest
    rw [← hjoin, FilePath.clean_join_name_iff components_fileName components_fileName] at hfile
    rw [hfound.clean_workspaceRoot, hfile.1]
    exact FilePath.clean_of_mem_ancestors (FilePath.clean_clean cwd) hnearest.mem
  itself := fun hnone => workspaceRoot_of_not_held (mt (held_of_direct h).mp hnone)

end

-- ============================================================== detours

/-- A file in a directory is the only file there is. -/
def onlyIn (dir name : String) : FileStore :=
  FileStore.empty.add (join dir name) ""

theorem isFile_onlyIn (h : components name = [.name text]) {d : String} :
    (onlyIn dir name).isFile (join d name) = true ↔ clean d = clean dir := by
  have hjoin : clean (join d name) = clean (join dir name) ↔ clean d = clean dir :=
    (FilePath.clean_join_name_iff h h).trans (and_iff_left rfl)
  rw [FileStore.isFile, onlyIn, FileStore.content?_add, ← hjoin]
  split
  · next hsame => exact iff_of_true rfl hsame
  · next hother => exact iff_of_false Bool.false_ne_true hother

section Detour

variable (hdir : dir ∈ ancestors cwd) (hdetour : clean dir ∉ ancestors (clean cwd))

include hdir in
/-- It is found on every walk that passes its directory. -/
theorem held_onlyIn (hname : components name = [.name text]) :
    Held (onlyIn dir name) name cwd :=
  ⟨dir, hdir, (isFile_onlyIn hname).mpr rfl⟩

include hdetour in
/-- No directory around the one that is meant holds it. -/
theorem not_held_onlyIn (hname : components name = [.name text]) :
    ¬ Held (onlyIn dir name) name (clean cwd) := by
  rintro ⟨d, hd, hfile⟩
  have hclean := (isFile_onlyIn hname).mp hfile
  rw [FilePath.clean_of_mem_ancestors (FilePath.clean_clean cwd) hd] at hclean
  exact hdetour (hclean ▸ hd)

include hdir hdetour

theorem not_foundAround_onlyIn (hname : components name = [.name text]) :
    ¬ FoundAround (onlyIn dir name) name cwd := fun h =>
  not_held_onlyIn hdetour hname
    (h.found_iff.mp (exists_findFile?_iff.mpr (held_onlyIn hdir hname)))

theorem not_rootAround_onlyIn : ¬ RootAround (onlyIn dir fileName) cwd := by
  intro h
  obtain ⟨path, hpath⟩ := exists_findFile?_iff.mpr (held_onlyIn hdir components_fileName)
  obtain ⟨found, hfound, -⟩ := findFile?_eq_some_iff.mp hpath
  have hclean : clean found = clean dir := by
    obtain ⟨-, -, -, hfile, -⟩ := hfound
    exact (isFile_onlyIn components_fileName).mp hfile
  -- the root is in the directory of the detour, though no settings file governs
  have hroot := hfound.clean_workspaceRoot
  rw [h.itself (not_held_onlyIn hdetour components_fileName), hclean] at hroot
  exact hdetour (hroot ▸ FilePath.mem_ancestors_self _)

end Detour

-- ========================================================== the condition

/-- Whatever the files are, the workspace of a directory is rooted where the nearest
settings file from the directory that is meant outwards is, and files of any other
name are found there too, exactly if the directory is spelled directly. -/
theorem lookup_around_iff (cwd : String) :
    ((∀ s, RootAround s cwd) ↔ Direct cwd) ∧
      ∀ name text, components name = [.name text] →
        ((∀ s, FoundAround s name cwd) ↔ Direct cwd) := by
  refine ⟨⟨fun h dir hdir => ?_, rootAround_of_direct⟩, fun name text hname =>
    ⟨fun h dir hdir => ?_, fun h s => foundAround_of_direct h s name⟩⟩
  · exact Decidable.byContradiction fun hdetour => not_rootAround_onlyIn hdir hdetour (h _)
  · exact Decidable.byContradiction fun hdetour =>
      not_foundAround_onlyIn hdir hdetour hname (h _)

/-- A walk may turn back and still be direct, if it turns back to where it has been. -/
theorem lookup_around_iff_turning :
    components "locus.local.toml" = [.name "locus.local.toml"] ∧
      (∀ s, RootAround s "/ws/app/../app") ∧
      ∀ s, FoundAround s "locus.local.toml" "/ws/app/../app" := by
  have hname : components "locus.local.toml" = [.name "locus.local.toml"] := by decide
  have hdirect : Direct "/ws/app/../app" := by decide +kernel
  obtain ⟨hroot, hfound⟩ := lookup_around_iff "/ws/app/../app"
  exact ⟨hname, hroot.mpr hdirect, (hfound _ _ hname).mpr hdirect⟩

/-- A settings file beside the directory that is meant is taken for the one that
governs it. -/
theorem lookup_beside :
    let s := FileStore.ofFiles [("/ws/lib/locus.toml", "")]
    let cwd := "/ws/lib/../app"
    isAbsolute cwd = true ∧ ¬ Held s fileName (clean cwd) ∧
      findFile? s cwd fileName = some "/ws/lib/locus.toml" ∧ workspaceRoot s cwd = "/ws/lib" := by
  intro s cwd
  decide +kernel

end Settings

end ImportResolution
