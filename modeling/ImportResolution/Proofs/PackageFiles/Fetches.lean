/-
Descriptors that are looked up while the files change. What is answered for a path
is settled when its descriptor is looked up for the first time, under whatever
spelling: the file is read then and never again, and what it held then is the answer
from then on, also where there was no descriptor in it (`descriptors_read_once`).

# The log

Which descriptors are looked up, and what files are there at that time, can be told
without any memory (`fetches`): a directory is asked for its descriptor only where
there is such a file, and files change only by being added. The memory is measured
against this log. `Remembers` says that a look-up was a miss exactly if it was the
first of its path, and that it was then that the path was read. Looking a descriptor
up keeps it (`Remembers.descriptor?`), and so does a file that is added.
-/
import ImportResolution.Proofs.FileStore
import ImportResolution.Proofs.Memo
import ImportResolution.Proofs.PackageFiles

namespace ImportResolution

open FilePath (clean clean_clean)
open FileStore (SameFiles)

theorem FileStore.SameFiles.add {s t : FileStore} (h : SameFiles s t) (path content : String) :
    SameFiles (s.add path content) (t.add path content) := by
  unfold FileStore.add
  rw [h.1, h.2]
  exact ⟨rfl, rfl⟩

namespace PackageFiles

-- ============================================================= accesses

/-- What is asked of the files of a workspace, or done to them. -/
inductive Access where
  /-- The descriptor at a path is looked up. -/
  | descriptor (path : String)
  /-- The descriptor of the package in a directory is looked up. -/
  | inDirectory (dir : String)
  /-- A file is added, or given another content. -/
  | add (path content : String)
deriving DecidableEq, Repr

namespace Access

/-- What an access answers, which is nothing where a file is added, and the files
afterwards. -/
def perform : Access → Search (Option PackageDescriptor)
  | .descriptor path => descriptor? path
  | .inDirectory dir => descriptorIn? dir
  | .add path content => fun f => (none, { f with store := f.store.add path content })

/-- What becomes of the files. -/
def result (s : FileStore) : Access → FileStore
  | .add path content => s.add path content
  | _ => s

/-- The cleaned path of the descriptor that an access looks up, if it looks one up. -/
def fetches? (s : FileStore) : Access → Option String
  | .descriptor path => some (clean path)
  | .inDirectory dir =>
    if s.isFile (FilePath.join dir descriptorName) then
      some (clean (FilePath.join dir descriptorName))
    else none
  | .add _ _ => none

end Access

/-- What is remembered after some accesses, first to last. -/
def after (f : PackageFiles) (accesses : List Access) : PackageFiles :=
  accesses.foldl (fun f access => (access.perform f).2) f

-- ============================================================== the log

/-- A look-up of a descriptor: its cleaned path, and the files as they were. -/
structure Fetch where
  path : String
  files : FileStore

/-- The files after some accesses. -/
def filesAfter (s : FileStore) (accesses : List Access) : FileStore :=
  accesses.foldl Access.result s

/-- The look-ups that an access makes. -/
def Access.fetch (s : FileStore) (access : Access) : List Fetch :=
  ((access.fetches? s).map (⟨·, s⟩)).toList

/-- The look-ups that some accesses make, first to last. -/
def fetches (s : FileStore) : List Access → List Fetch
  | [] => []
  | access :: rest => access.fetch s ++ fetches (access.result s) rest

/-- The descriptor that a file held when it was looked up for the first time. -/
def firstHeld? (log : List Fetch) (path : String) : Option PackageDescriptor :=
  (log.find? (·.path == path)).bind fun first =>
    (first.files.content? path).bind PackageDescriptor.ofText?

theorem fetches_concat (s : FileStore) (accesses : List Access) (last : Access) :
    fetches s (accesses ++ [last]) = fetches s accesses ++ last.fetch (filesAfter s accesses) := by
  induction accesses generalizing s with
  | nil => exact List.append_nil _
  | cons access rest ih =>
      rw [List.cons_append, fetches, fetches, ih, List.append_assoc]
      rfl

-- =========================================================== the memory

/-- What is remembered has come from the look-ups in the log, in files that are now
those of `files` and whose readings were those of `s` at the start. -/
structure Remembers (s files : FileStore) (log : List Fetch) (f : PackageFiles) : Prop where
  store : SameFiles f.store files
  ledger : f.descriptors.Ledger (log.map Fetch.path)
  answers : ∀ path, f.descriptors.peek? path
    = (log.find? (·.path == path)).map fun first => descriptorAt first.files path
  readings : ∀ path, f.store.readingsOf path
    = s.readingsOf path + if clean path ∈ log.map Fetch.path then 1 else 0

theorem remembers_ofStore (s : FileStore) : Remembers s s [] (.ofStore s) where
  store := SameFiles.refl s
  ledger := Memo.ledger_empty
  answers := fun _ => rfl
  readings := fun _ => rfl

variable {s files : FileStore} {log : List Fetch} {f : PackageFiles}

/-- A file that is added is not read. -/
theorem Remembers.add (h : Remembers s files log f) (path content : String) :
    Remembers s (files.add path content) log { f with store := f.store.add path content } where
  store := h.store.add path content
  ledger := h.ledger
  answers := h.answers
  readings := h.readings

theorem descriptor?_ledger {asked : List String} (h : f.descriptors.Ledger asked)
    (path : String) : (descriptor? path f).2.descriptors.Ledger (asked ++ [clean path]) := by
  cases hk : f.descriptors.peek? (clean path) with
  | some answer =>
      rw [descriptor?_of_known hk]
      exact h.of_known hk
  | none =>
      rw [descriptor?_of_unknown hk, readDescriptor_run]
      exact h.of_unknown hk _

/-- A path is read when its descriptor is not remembered. -/
theorem readingsOf_descriptor? (f : PackageFiles) (path other : String) :
    (descriptor? path f).2.store.readingsOf other
      = f.store.readingsOf other + if clean other = clean path ∧
          f.descriptors.peek? (clean path) = none then 1 else 0 := by
  cases hk : f.descriptors.peek? (clean path) with
  | some answer =>
      rw [descriptor?_of_known hk]
      simp
  | none =>
      rw [descriptor?_of_unknown hk, readDescriptor_run]
      show (PackageDescriptor.load f.store (clean path)).2.readingsOf other = _
      rw [PackageDescriptor.load, FileStore.load_run, FileStore.readingsOf_countReading,
        clean_clean]
      simp

/-- Looking a descriptor up enters the look-up into the log. -/
theorem Remembers.descriptor? (h : Remembers s files log f) (path : String) :
    Remembers s files (log ++ [⟨clean path, files⟩]) (descriptor? path f).2 := by
  obtain ⟨hsame, hanswer, hkept⟩ := descriptor?_spec path f
  refine ⟨hsame.trans h.store, ?_, fun key => ?_, fun other => ?_⟩
  · rw [List.map_append]
    exact descriptor?_ledger h.ledger path
  · rw [hkept, hanswer, h.answers key, h.answers (clean path), List.find?_append,
      descriptorAt_eq h.store]
    by_cases hkey : key = clean path
    · subst hkey
      cases log.find? (·.path == clean path) with
      | some first => rfl
      | none => simp
    · simp [hkey, Ne.symm hkey]
  · have hmissed : f.descriptors.peek? (clean path) = none
        ↔ clean path ∉ log.map Fetch.path := by
      rw [← h.ledger.keys, Memo.mem_keys_iff, Option.not_isSome_iff_eq_none]
    simp only [readingsOf_descriptor?, h.readings, hmissed, List.map_append, List.mem_append,
      Nat.add_assoc]
    by_cases hother : clean other = clean path
    · by_cases hmem : clean path ∈ log.map Fetch.path
      · simp [hother, hmem]
      · simp [hother, hmem]
    · simp [hother]

/-- A look-up is answered what the file held when it was looked up for the first
time. -/
theorem Remembers.descriptor?_fst (h : Remembers s files log f) (path : String) :
    (PackageFiles.descriptor? path f).1
      = firstHeld? (log ++ [⟨clean path, files⟩]) (clean path) := by
  have hkept := (descriptor?_spec path f).2.2 (clean path)
  have hfirst := (h.descriptor? path).answers (clean path)
  have hanswered : ((PackageFiles.descriptor? path f).2.descriptors.peek? (clean path))
      = some (PackageFiles.descriptor? path f).1 := by
    rw [hkept, if_pos rfl, (descriptor?_spec path f).2.1]
    cases f.descriptors.peek? (clean path) <;> rfl
  rw [hanswered] at hfirst
  obtain ⟨first, hfind, hheld⟩ := Option.map_eq_some_iff.mp hfirst.symm
  rw [firstHeld?, hfind, Option.bind_some, ← hheld, descriptorAt_eq_bind]

/-- A directory is asked for its descriptor where it has such a file. -/
theorem descriptorIn?_run (dir : String) (f : PackageFiles) :
    descriptorIn? dir f
      = if f.store.isFile (FilePath.join dir descriptorName) then
          descriptor? (FilePath.join dir descriptorName) f
        else (none, f) := by
  show (if f.store.isFile (FilePath.join dir descriptorName) then
    descriptor? (FilePath.join dir descriptorName) else pure none) f = _
  split <;> rfl

/-- An access enters the look-ups that it makes into the log, and is answered by the
first look-up of its path. -/
theorem Remembers.perform (h : Remembers s files log f) (access : Access) :
    (access.perform f).1 = (access.fetches? files).bind (firstHeld? (log ++ access.fetch files)) ∧
      Remembers s (access.result files) (log ++ access.fetch files) (access.perform f).2 := by
  cases access with
  | descriptor path => exact ⟨h.descriptor?_fst path, h.descriptor? path⟩
  | inDirectory dir =>
      simp only [Access.perform, Access.fetch, Access.fetches?, descriptorIn?_run,
        h.store.isFile_eq]
      split
      · exact ⟨h.descriptor?_fst _, h.descriptor? _⟩
      · refine ⟨rfl, ?_⟩
        rw [Option.map_none, Option.toList_none, List.append_nil]
        exact h
  | add path content =>
      refine ⟨rfl, ?_⟩
      rw [Access.fetch, Access.fetches?, Option.map_none, Option.toList_none, List.append_nil]
      exact h.add path content

theorem remembers_after (s : FileStore) (accesses : List Access) :
    Remembers s (filesAfter s accesses) (fetches s accesses) (after (.ofStore s) accesses) := by
  induction accesses using List.reverseRecOn with
  | nil => exact remembers_ofStore s
  | append_singleton accesses last ih =>
      rw [fetches_concat, filesAfter, after, List.foldl_concat, List.foldl_concat]
      exact (ih.perform last).2

/-- However often descriptors are looked up, under whatever spellings of their paths,
and however files are added or replaced in between: a path is read once if it is
looked up at all; every look-up is answered what the file held at the first look-up
of its path, which is nothing if there was no file or no descriptor in it; a
directory without such a file is answered nothing, and no trace of this is left; and
the counts are those of the look-ups, with a miss and an entry for each path. -/
theorem descriptors_read_once (s : FileStore) (accesses : List Access) :
    let f := after (.ofStore s) accesses
    let paths := (fetches s accesses).map Fetch.path
    (∀ path, f.store.readingsOf path
      = s.readingsOf path + if clean path ∈ paths then 1 else 0) ∧
    (∀ access : Access, (access.perform f).1 = (access.fetches? (filesAfter s accesses)).bind
      (firstHeld? (fetches s (accesses ++ [access])))) ∧
    (∀ dir, (filesAfter s accesses).isFile (FilePath.join dir descriptorName) = false →
      descriptorIn? dir f = (none, f)) ∧
    f.descriptors.size = paths.dedup.length ∧ f.descriptors.misses = paths.dedup.length ∧
    f.descriptors.hits + f.descriptors.misses = paths.length := by
  intro f paths
  have h : Remembers s (filesAfter s accesses) (fetches s accesses) f :=
    remembers_after s accesses
  refine ⟨h.readings, fun access => ?_, fun dir hdir => ?_, h.ledger.size_eq,
    h.ledger.missed.trans h.ledger.size_eq, h.ledger.counted⟩
  · rw [fetches_concat]
    exact (h.perform access).1
  · rw [descriptorIn?_run, h.store.isFile_eq, hdir]
    rfl

end PackageFiles

end ImportResolution
