/-
What the searches of the compiler and of the runtime find, read off the files. A search
looks descriptors up on its way and remembers them, but what it finds is a function of
the store alone, whatever was remembered before, and this function is given here for
each part of a search: the file that a path stands for (`Spelling.found?`), what a
directory of the walk has to say about a specifier, and the answer to the whole
question (`Runtime.answer`, `Compiler.answer`). Each of them is what the search comes
to on any memory over the store (`Answers`).

Both searches ask for a directory before they look into it. Where every directory that a
file lies in is known, that makes no difference: a path stands for the first of its
candidates that is a file (`Spelling.found?_eq_find?`), and in a directory that is not
there nothing is one (`Spelling.isFile_candidates_eq_false`).
-/
import ImportResolution.ModuleSearch.Compiler
import ImportResolution.ModuleSearch.Runtime
import ImportResolution.Proofs.FileStore.Directories
import ImportResolution.Proofs.SameFiles
import ImportResolution.Proofs.Specifier

namespace ImportResolution.ModuleSearch

open FilePath (IsEnding OfNames Under ancestors clean fileName? join)
open PackageFiles (Over descriptorAt descriptorIn? descriptorName)

variable {α β : Type} {s : FileStore} {path : String}

-- ============================================================ searches

theorem answers_firstFile? (paths : List String) :
    Answers (Over s) (firstFile? paths) (paths.find? s.isFile) :=
  Answers.ofRead (f := fun p : PackageFiles => paths.find? p.store.isFile) fun p hp => by
    rw [hp.1.isFile_eq]

theorem answers_hasDirectory (path : String) :
    Answers (Over s) (hasDirectory path) (s.isDirectory path) :=
  Answers.ofRead (f := fun p : PackageFiles => p.store.isDirectory path) fun p hp => by
    rw [hp.1.isDirectory_eq]

theorem answers_firstFound?_cons {search : Search (Option α)}
    {rest : List (Search (Option α))} {a b : Option α} (ha : Answers (Over s) search a)
    (hb : Answers (Over s) (firstFound? rest) b) :
    Answers (Over s) (firstFound? (search :: rest)) (a.or b) := by
  refine ha.bind ?_
  cases a with
  | some found => exact Answers.pure _
  | none => exact hb

/-- The first of some searches of one kind finds what the first of them finds. -/
theorem answers_firstFound? {search : β → Search (Option α)} {found : β → Option α}
    (l : List β) (h : ∀ b, Answers (Over s) (search b) (found b)) :
    Answers (Over s) (firstFound? (l.map search)) (l.findSome? found) := by
  induction l with
  | nil => exact Answers.pure none
  | cons b rest ih =>
      have hcons := answers_firstFound?_cons (h b) ih
      rw [List.findSome?_cons]
      cases hb : found b with
      | none =>
          rw [hb] at hcons
          exact hcons
      | some a =>
          rw [hb] at hcons
          exact hcons

-- ========================================================== descriptors

/-- The descriptor that the files have of the package in a directory. -/
def descriptorIn (s : FileStore) (dir : String) : Option PackageDescriptor :=
  descriptorAt s (clean (join dir descriptorName))

theorem isFile_of_descriptorIn {dir : String} {descriptor : PackageDescriptor}
    (h : descriptorIn s dir = some descriptor) : s.isFile (join dir descriptorName) = true := by
  obtain ⟨text, htext, -⟩ := PackageFiles.descriptorAt_eq_some_iff.mp h
  rw [FileStore.content?, FilePath.clean_clean] at htext
  rw [FileStore.isFile, FileStore.content?, htext]
  rfl

theorem answers_descriptorIn? (dir : String) :
    Answers (Over s) (descriptorIn? dir) (descriptorIn s dir) := by
  have hrun : descriptorIn? dir
      = (fun p : PackageFiles => (p.store.isFile (join dir descriptorName), p) : Search Bool) >>=
        fun there => if there then PackageFiles.descriptor? (join dir descriptorName)
          else pure none := rfl
  have hthere : Answers (Over s)
      (fun p : PackageFiles => (p.store.isFile (join dir descriptorName), p))
      (s.isFile (join dir descriptorName)) :=
    Answers.ofRead fun p hp => by rw [hp.1.isFile_eq]
  rw [hrun]
  refine hthere.bind ?_
  cases hfile : s.isFile (join dir descriptorName) with
  | true => exact PackageFiles.answers_descriptor? _
  | false =>
      have hnone : descriptorIn s dir = none := by
        refine Option.eq_none_iff_forall_ne_some.mpr fun descriptor h => ?_
        rw [isFile_of_descriptorIn h] at hfile
        cases hfile
      rw [hnone]
      exact Answers.pure none

-- =========================================================== spellings

/-- The files that a directory may stand for. -/
def Spelling.inside (spelling : Spelling) (s : FileStore) (dir : String) : List String :=
  ((descriptorIn s dir).elim [] spelling.entries).flatMap (spelling.entryFiles dir)
    ++ spelling.indexes dir

/-- Whether a path is looked into as a directory of the store. -/
def Spelling.opens (spelling : Spelling) (s : FileStore) (dir : String) : Bool :=
  !spelling.asksFirst || s.isDirectory dir

/-- The file of the store that a path stands for. -/
def Spelling.found? (spelling : Spelling) (s : FileStore) (path : String) : Option String :=
  ((spelling.files path).find? s.isFile).or
    (if spelling.opens s path then (spelling.inside s path).find? s.isFile else none)

section

variable (spelling : Spelling)

theorem answers_looksInto (dir : String) :
    Answers (Over s) (looksInto spelling dir) (spelling.opens s dir) := by
  unfold looksInto Spelling.opens
  cases spelling.asksFirst with
  | true => exact answers_hasDirectory dir
  | false => exact Answers.pure true

theorem answers_loadDirectory (dir : String) :
    Answers (Over s) (loadDirectory spelling dir)
      (if spelling.opens s dir then (spelling.inside s dir).find? s.isFile else none) := by
  refine (answers_looksInto spelling dir).bind ?_
  cases spelling.opens s dir with
  | false => exact Answers.pure none
  | true =>
      refine (answers_descriptorIn? dir).bind ?_
      unfold Spelling.inside
      cases descriptorIn s dir with
      | none => exact answers_firstFile? _
      | some descriptor => exact answers_firstFile? _

/-- Loading a path finds the file that it stands for. -/
theorem answers_load (path : String) :
    Answers (Over s) (load spelling path) (spelling.found? s path) := by
  have hnothing : Answers (Over s) (firstFound? ([] : List (Search (Option String)))) none :=
    Answers.pure none
  have h := answers_firstFound?_cons (answers_firstFile? (s := s) (spelling.files path))
    (answers_firstFound?_cons (answers_loadDirectory spelling path) hnothing)
  rw [Option.or_none] at h
  exact h

end

/-- What a path stands for is a file. -/
theorem Spelling.isFile_of_found? {spelling : Spelling} {file : String}
    (h : spelling.found? s path = some file) : s.isFile file = true := by
  rcases Option.or_eq_some_iff.mp h with h | ⟨-, h⟩
  · exact List.find?_some h
  · split at h
    · exact List.find?_some h
    · cases h

theorem orNotFound_eq_ok_iff {specifier : String} {found : Option String} :
    orNotFound specifier found = .ok path ↔ found = some path := by
  cases found with
  | none => exact iff_of_false nofun nofun
  | some file => rw [orNotFound, Except.ok.injEq, Option.some.injEq]

theorem orNotFound_eq_error_iff {specifier : String} {found : Option String} {fault : Fault} :
    orNotFound specifier found = .error fault
      ↔ found = none ∧ fault = .moduleNotFound specifier := by
  cases found with
  | none => rw [orNotFound, Except.error.injEq, eq_comm, and_iff_right rfl]
  | some file => exact iff_of_false nofun nofun

-- ==================================================== known directories

/-- The files that a path may stand for, in order. -/
def Spelling.candidates (spelling : Spelling) (s : FileStore) (path : String) : List String :=
  spelling.files path ++ spelling.inside s path

/-- A spelling that adds endings to names, and reads of a joined path only what was
joined. -/
structure Spelling.Regular (spelling : Spelling) : Prop where
  endings : ∀ ending ∈ spelling.endings, IsEnding ending
  files_join : ∀ base {rest : String}, FilePath.isAbsolute rest = false →
    spelling.files (join base rest) = (spelling.files rest).map (join base)

theorem withEndings_join {endings : List String} {rest : String}
    (h : ∀ ending ∈ endings, IsEnding ending) (base : String)
    (hrest : FilePath.isAbsolute rest = false) :
    withEndings (join base rest) endings = (withEndings rest endings).map (join base) := by
  rw [withEndings, withEndings, List.map_map]
  exact List.map_congr_left fun ending hending =>
    FilePath.join_append base hrest (h ending hending).no_slash

section Housed

variable {spelling : Spelling} {place : String} (h : spelling.Regular) (hs : s.Housed)

/-- In no directory there is no package. -/
theorem descriptorIn_eq_none (hs : s.Housed) (hplace : s.isDirectory place = false)
    (hpath : Under place path) : descriptorIn s path = none := by
  have hname : OfNames descriptorName := by decide +kernel
  refine Option.eq_none_iff_forall_ne_some.mpr fun descriptor hd => ?_
  have hfile := hs.isFile_eq_false hplace (hpath.liesIn_join hname)
  rw [isFile_of_descriptorIn hd] at hfile
  cases hfile

include h hs

/-- What is in no directory has no file inside. -/
theorem Spelling.isFile_inside_eq_false (hplace : s.isDirectory place = false)
    (hpath : Under place path) : ∀ file ∈ spelling.inside s path, s.isFile file = false := by
  intro file hfile
  have hindex : OfNames "index" := by decide +kernel
  rw [Spelling.inside, descriptorIn_eq_none hs hplace hpath] at hfile
  obtain ⟨ending, hending, rfl⟩ := List.mem_map.mp hfile
  have hends := h.endings ending hending
  rw [FilePath.join_append _ hindex.plain.isAbsolute_eq hends.no_slash]
  exact hs.isFile_eq_false hplace (hpath.liesIn_join (hindex.append_ending hends))

/-- In no directory there is no file that a path may stand for. -/
theorem Spelling.isFile_candidates_eq_false {dir rest : String}
    (hplace : s.isDirectory place = false) (hdir : Under place dir)
    (hrest : FilePath.isAbsolute rest = false) (hpath : Under place (join dir rest))
    (hfiles : ∀ file ∈ spelling.files rest, OfNames file) :
    ∀ file ∈ spelling.candidates s (join dir rest), s.isFile file = false := by
  intro file hfile
  rcases List.mem_append.mp hfile with hfile | hfile
  · rw [h.files_join dir hrest] at hfile
    obtain ⟨name, hname, rfl⟩ := List.mem_map.mp hfile
    exact hs.isFile_eq_false hplace (hdir.liesIn_join (hfiles name hname))
  · exact isFile_inside_eq_false h hs hplace hpath file hfile

/-- To ask first whether a directory is there makes no difference: a path stands for the
first of its candidates that is a file. -/
theorem Spelling.found?_eq_find? (path : String) :
    spelling.found? s path = (spelling.candidates s path).find? s.isFile := by
  rw [Spelling.found?, Spelling.candidates, List.find?_append]
  cases hopens : spelling.opens s path with
  | true => rfl
  | false =>
      have hdir : s.isDirectory path = false := by
        rw [Spelling.opens, Bool.or_eq_false_iff] at hopens
        exact hopens.2
      have hnone : (spelling.inside s path).find? s.isFile = none :=
        List.find?_eq_none.mpr fun file hfile => Bool.eq_false_iff.mp
          (isFile_inside_eq_false h hs hdir (FilePath.under_self path) file hfile)
      rw [hnone]
      rfl

/-- The first of some paths that stands for a file stands for the first candidate. -/
theorem Spelling.findSome?_found? (paths : List String) :
    paths.findSome? (spelling.found? s)
      = (paths.flatMap (spelling.candidates s)).find? s.isFile := by
  rw [List.find?_flatMap, funext (found?_eq_find? h hs)]

end Housed

-- ========================================================== specifiers

section Specifiers

variable {specifier : String}

/-- A specifier of names is no path. -/
theorem isPath_eq_false (h : OfNames specifier) : isPath specifier = false := by
  rw [isPath, h.isRelative_eq_false, h.plain.isAbsolute_eq]
  rfl

/-- The package that a specifier of names asks for is a path of names too. -/
theorem ofNames_packageName (h : OfNames specifier) :
    OfNames (Specifier.packageName specifier) := by
  rw [FilePath.ofNames_iff] at h ⊢
  rw [Specifier.packageName_eq, Specifier.splitOn_leading (Specifier.packageSize_pos _)]
  exact fun segment hs => h segment (List.mem_of_mem_take hs)

end Specifiers

-- ============================================================= runtime

namespace Runtime

variable (s) (installed specifier : String)

/-- The descriptor that decides what a specifier means. -/
def decider? (packageDir : String) : Option PackageDescriptor :=
  if (Specifier.subpath? specifier).isNone then
    (descriptorIn s packageDir).filter (·.entryPoints.isSome)
  else none

/-- The file that the entry points of a package lead to, if it is there. -/
def offer? (packageDir : String) (descriptor : PackageDescriptor) : Option String :=
  (descriptor.rootTarget? conditions).bind fun target =>
    [clean (join packageDir target)].find? s.isFile

/-- Where the package of a specifier is that is installed for a directory. -/
def packageDir (installed specifier dir : String) : String :=
  join (join dir installed) (Specifier.packageName specifier)

/-- What a directory of the walk says about a specifier. -/
def says? (origin dir : String) : Option (Except Fault String) :=
  if fileName? dir = some installed then none
  else if s.isDirectory (join dir installed) then
    match decider? s specifier (packageDir installed specifier dir) with
    | some descriptor =>
      some ((offer? s (packageDir installed specifier dir) descriptor).elim
        (.error (.packageNotFound (Specifier.packageName specifier) origin)) .ok)
    | none => (spelling.found? s (join (join dir installed) specifier)).map .ok
  else none

/-- The file that a specifier means to the runtime. -/
def answer (file : String) : Except Fault String :=
  let dir := importingDirectory file
  if isPath specifier then
    orNotFound specifier (spelling.found? s (clean (join dir specifier)))
  else
    ((ancestors dir).findSome? (says? s installed specifier dir)).getD
      (.error (.moduleNotFound specifier))

variable {s} {specifier}

theorem answers_deciding? (packageDir : String) :
    Answers (Over s) (deciding? specifier packageDir) (decider? s specifier packageDir) := by
  unfold deciding? decider?
  split
  · refine (answers_descriptorIn? packageDir).bind ?_
    cases descriptorIn s packageDir with
    | none => exact Answers.pure none
    | some descriptor =>
        rw [Option.filter_some]
        exact Answers.pure _
  · exact Answers.pure none

theorem answers_offered? (packageDir : String) (descriptor : PackageDescriptor) :
    Answers (Over s) (offered? packageDir descriptor) (offer? s packageDir descriptor) := by
  unfold offered? offer?
  cases descriptor.rootTarget? conditions with
  | none => exact Answers.pure none
  | some target => exact answers_firstFile? _

theorem answers_level? (origin dir : String) :
    Answers (Over s) (level? installed specifier origin dir)
      (says? s installed specifier origin dir) := by
  simp only [level?, says?, packageDir]
  split
  · exact Answers.pure none
  · refine (answers_hasDirectory _).bind ?_
    split
    · refine (answers_deciding? _).bind ?_
      cases decider? s specifier _ with
      | none => exact (answers_load spelling _).bind (Answers.pure _)
      | some descriptor =>
          refine (answers_offered? _ descriptor).bind ?_
          dsimp only
          cases offer? s _ descriptor <;> exact Answers.pure _
    · exact Answers.pure none

/-- The runtime finds what the files have for it. -/
theorem answers_resolve (file : String) :
    Answers (Over s) (resolve installed specifier file) (answer s installed specifier file) := by
  simp only [resolve, answer]
  split
  · exact (answers_load spelling _).bind (Answers.pure _)
  · refine (answers_firstFound? _ (answers_level? installed _)).bind ?_
    cases (ancestors (importingDirectory file)).findSome? _ <;> exact Answers.pure _

end Runtime

-- ============================================================ compiler

namespace Compiler

variable (s) (installed : String) (config : CompilerConfig) (specifier : String)

/-- The paths that a specifier may stand for through the aliases and from the base
URL. -/
def configured : List String :=
  ((config.aliases.closest? specifier).getD []).map (fun target =>
    clean (join config.aliasBase target)) ++
  (config.baseUrl.map fun base => clean (join base specifier)).toList

/-- The paths that a specifier may stand for in the installed directory inside `dir`. -/
def installedPlaces (dir : String) : List String :=
  [join (join dir installed) specifier, declarationPlace (join dir installed) specifier]

/-- What the installed directory inside `dir` holds for a specifier. -/
def holds? (dir : String) : Option String :=
  if s.isDirectory (join dir installed) then
    (installedPlaces installed specifier dir).findSome? (spelling.found? s)
  else none

/-- The file that a specifier means to the compiler. -/
def answer (file : String) : Except Fault String :=
  let dir := importingDirectory file
  orNotFound specifier <|
    if isPath specifier then spelling.found? s (clean (join dir specifier))
    else ((configured config specifier).findSome? (spelling.found? s)).or
      ((ancestors dir).findSome? (holds? s installed specifier))

variable {s} {specifier}

theorem answers_throughAliases? :
    Answers (Over s) (throughAliases? config specifier)
      ((((config.aliases.closest? specifier).getD []).map fun target =>
        clean (join config.aliasBase target)).findSome? (spelling.found? s)) := by
  have hrun : throughAliases? config specifier
      = firstFound? ((((config.aliases.closest? specifier).getD []).map fun target =>
        clean (join config.aliasBase target)).map (load spelling)) := by
    rw [List.map_map]
    rfl
  rw [hrun]
  exact answers_firstFound? _ (answers_load spelling)

theorem answers_fromBaseUrl? :
    Answers (Over s) (fromBaseUrl? config specifier)
      ((config.baseUrl.map fun base => clean (join base specifier)).toList.findSome?
        (spelling.found? s)) := by
  unfold fromBaseUrl?
  cases config.baseUrl with
  | none => exact Answers.pure none
  | some base =>
      rw [Option.map_some, Option.toList_some, List.findSome?_singleton]
      exact answers_load spelling (clean (join base specifier))

theorem answers_level? (dir : String) :
    Answers (Over s) (level? installed specifier dir) (holds? s installed specifier dir) := by
  simp only [level?, holds?]
  refine (answers_hasDirectory _).bind ?_
  split
  · exact answers_firstFound? (installedPlaces installed specifier dir) (answers_load spelling)
  · exact Answers.pure none

/-- The compiler finds what the files have for it. -/
theorem answers_resolve (file : String) :
    Answers (Over s) (resolve installed config specifier file)
      (answer s installed config specifier file) := by
  simp only [resolve, answer]
  split
  · exact (answers_load spelling _).bind (Answers.pure _)
  · refine Answers.bind ?_ (Answers.pure _)
    rw [configured, List.findSome?_append, Option.or_assoc]
    exact answers_firstFound?_cons (answers_throughAliases? config)
      (answers_firstFound?_cons (answers_fromBaseUrl? config)
        (answers_firstFound? _ (answers_level? installed)))

end Compiler

end ImportResolution.ModuleSearch
