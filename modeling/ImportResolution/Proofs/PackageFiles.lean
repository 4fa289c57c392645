/-
Files in which some package descriptors cannot be understood. A search that
makes no difference between a descriptor that is missing and one that says
nothing (`PackageFiles.Lenient`) finds the same where such descriptors are
replaced by blank ones (`Lenient.agree`, `matched_emptied`).
-/
import ImportResolution.Proofs.SameFiles

namespace ImportResolution

open FileStore (SameFiles)

/-- The descriptor that says nothing. -/
def PackageDescriptor.blank : PackageDescriptor :=
  ⟨none, none, none, none, none, none, none⟩

theorem PackageDescriptor.ofText?_empty : ofText? "{}" = some blank := by
  rfl

-- ============================================================== stores

namespace FileStore

variable {s t : FileStore}

/-- In both stores the same paths are files and the same are directories; what the
files hold may differ. -/
def SamePlaces (s t : FileStore) : Prop :=
  s.isFile = t.isFile ∧ s.isDirectory = t.isDirectory

theorem SameFiles.samePlaces (h : SameFiles s t) : SamePlaces s t :=
  ⟨h.isFile_eq, h.isDirectory_eq⟩

/-- The store with the files at some paths emptied: each of them holds an object
without members. -/
def emptied (s : FileStore) (paths : List String) : FileStore :=
  { s with
    files := s.files.map fun f =>
      (f.1, if f.1 ∈ paths.map FilePath.clean then "{}" else f.2) }

theorem content?_emptied (s : FileStore) (paths : List String) (path : String) :
    (s.emptied paths).content? path = (s.content? path).map fun text =>
      if FilePath.clean path ∈ paths.map FilePath.clean then "{}" else text := by
  unfold content? emptied
  induction s.files with
  | nil => rfl
  | cons f rest ih =>
      obtain ⟨key, text⟩ := f
      rw [List.map_cons, Table.lookup_cons_ite, Table.lookup_cons_ite, ih]
      by_cases hkey : FilePath.clean path = key
      · rw [if_pos hkey, if_pos hkey, Option.map_some, hkey]
      · rw [if_neg hkey, if_neg hkey]

theorem samePlaces_emptied (s : FileStore) (paths : List String) :
    SamePlaces s (s.emptied paths) := by
  refine ⟨funext fun path => ?_, rfl⟩
  rw [isFile, isFile, content?_emptied, Option.isSome_map]

end FileStore

open FileStore (SamePlaces)

namespace PackageFiles

variable {s t : FileStore} {α : Type}

-- ============================================================ searches

/-- A search that only looks, and for which a descriptor that is missing is as good
as one that says nothing. -/
inductive Lenient : {α : Type} → Search α → Prop where
  | pure {α : Type} (a : α) : Lenient (pure a)
  | files {α : Type} {f : FileStore → α} (h : ∀ s t, SamePlaces s t → f s = f t) :
      Lenient fun p => (f p.store, p)
  | descriptor {α : Type} (path : String) {next : Option PackageDescriptor → Search α}
      (missing : next none = next (some .blank)) (hn : ∀ found, Lenient (next found)) :
      Lenient (descriptor? path >>= next)
  | bind {α β : Type} {search : Search α} {next : α → Search β} (h : Lenient search)
      (hn : ∀ a, Lenient (next a)) : Lenient (search >>= next)

theorem Lenient.looks {search : Search α} (h : Lenient search) : Looks search := by
  induction h with
  | pure a => exact .pure a
  | files h => exact .files fun s t hst => h s t hst.samePlaces
  | descriptor path _ _ ih => exact .bind (.descriptor path) ih
  | bind _ _ ih ihn => exact .bind ih ihn

/-- Looking up the descriptor of the package in a directory. -/
theorem Lenient.descriptorIn (dir : String) {next : Option PackageDescriptor → Search α}
    (missing : next none = next (some .blank)) (hn : ∀ found, Lenient (next found)) :
    Lenient (descriptorIn? dir >>= next) := by
  have hrun : descriptorIn? dir >>= next
      = (fun p => (p.store.isFile (FilePath.join dir descriptorName), p) : Search Bool) >>=
        fun there => (if there then descriptor? (FilePath.join dir descriptorName)
          else Pure.pure none) >>= next := rfl
  rw [hrun]
  refine .bind (.files (f := fun s => s.isFile (FilePath.join dir descriptorName))
    fun s t h => by rw [h.1]) fun there => ?_
  cases there with
  | true => exact .descriptor _ missing hn
  | false => exact hn none

-- ============================================================= matching

theorem descriptorAt_eq_bind (s : FileStore) (path : String) :
    descriptorAt s path = (s.content? path).bind PackageDescriptor.ofText? := by
  refine Option.ext fun d => ?_
  rw [descriptorAt_eq_some_iff, Option.bind_eq_some_iff]

/-- The stores have the same places, and a package whose descriptor cannot be
understood in one of them may have one that says nothing in the other. -/
structure Matched (s t : FileStore) : Prop where
  places : SamePlaces s t
  descriptors : ∀ path, (descriptorAt s path).getD .blank = (descriptorAt t path).getD .blank

/-- A lenient search finds the same in stores that match. -/
theorem Lenient.agree {search : Search α} (h : Lenient search) (hst : Matched s t) :
    Agree (Over s) (Over t) search search := by
  induction h with
  | pure a => exact Agree.pure a
  | @files α f h =>
      refine ⟨f s, Answers.ofRead fun p hp => h _ _ hp.1.samePlaces, Answers.ofRead fun p hp => ?_⟩
      rw [h s t hst.places]
      exact h _ _ hp.1.samePlaces
  | @descriptor α path next missing _ ih =>
      -- what follows cannot tell the two descriptors apart
      have hnext (found : Option PackageDescriptor) :
          next found = next (some (found.getD .blank)) := by
        cases found with
        | none => exact missing
        | some d => rfl
      obtain ⟨a, ha, ha'⟩ := ih (some ((descriptorAt s (FilePath.clean path)).getD .blank))
      refine ⟨a, (answers_descriptor? path).bind ?_, (answers_descriptor? path).bind ?_⟩
      · rw [hnext]
        exact ha
      · rw [hnext, ← hst.descriptors]
        exact ha'
  | bind _ _ ih ihn => exact Agree.bind ih ihn

/-- Emptying files that hold no descriptor that could be understood gives a store
that matches. -/
theorem matched_emptied {paths : List String} (h : ∀ path ∈ paths, descriptorAt s path = none) :
    Matched s (s.emptied paths) := by
  refine ⟨FileStore.samePlaces_emptied s paths, fun path => ?_⟩
  rw [descriptorAt_eq_bind, descriptorAt_eq_bind, FileStore.content?_emptied]
  by_cases hmem : FilePath.clean path ∈ paths.map FilePath.clean
  · obtain ⟨path', hpath', hclean⟩ := List.mem_map.mp hmem
    have hnone := h path' hpath'
    rw [descriptorAt_eq_bind, FileStore.content?, hclean] at hnone
    cases hcontent : s.content? path with
    | none => rfl
    | some text =>
        rw [FileStore.content?] at hcontent
        rw [hcontent, Option.bind_some] at hnone
        rw [Option.map_some, if_pos hmem, Option.bind_some, Option.bind_some, hnone,
          PackageDescriptor.ofText?_empty]
        rfl
  · simp only [if_neg hmem, Option.map_id_fun', id_eq]

end PackageFiles

end ImportResolution
