/-
Stores with the same files. Reading a file is counted and changes nothing
else, so two stores with the same files and directories give the same answer
to every question, however often they were read. The descriptors that are
remembered along with the files are those that the files have
(`PackageFiles.Over`), and a search that does nothing but look keeps it so
(`PackageFiles.Looks`).
-/
import ImportResolution.CompilerConfig.File
import ImportResolution.PackageFiles
import ImportResolution.Proofs.Steady

namespace ImportResolution

-- ============================================================= stores

namespace FileStore

/-- The stores hold the same files in the same directories; they may have
been read differently often. -/
def SameFiles (s t : FileStore) : Prop :=
  s.files = t.files ∧ s.directories = t.directories

theorem SameFiles.refl (s : FileStore) : SameFiles s s :=
  ⟨rfl, rfl⟩

theorem SameFiles.symm {s t : FileStore} (h : SameFiles s t) : SameFiles t s :=
  ⟨h.1.symm, h.2.symm⟩

theorem SameFiles.trans {s t u : FileStore} (h : SameFiles s t) (h' : SameFiles t u) :
    SameFiles s u :=
  ⟨h.1.trans h'.1, h.2.trans h'.2⟩

variable {s t : FileStore}

theorem SameFiles.content?_eq (h : SameFiles s t) (path : String) :
    s.content? path = t.content? path := by
  unfold FileStore.content?
  rw [h.1]

theorem SameFiles.isFile_eq (h : SameFiles s t) : s.isFile = t.isFile := by
  funext path
  unfold FileStore.isFile
  rw [h.content?_eq]

theorem SameFiles.isDirectory_eq (h : SameFiles s t) : s.isDirectory = t.isDirectory := by
  funext path
  unfold FileStore.isDirectory
  rw [h.2]

theorem SameFiles.findUpwards?_eq (h : SameFiles s t) : s.findUpwards? = t.findUpwards? := by
  funext names dir
  unfold FileStore.findUpwards?
  rw [h.isFile_eq]

/-- A file that is there is among the files under its cleaned path. -/
theorem clean_mem_keys_of_isFile {path : String} (h : s.isFile path = true) :
    FilePath.clean path ∈ Table.keys s.files := by
  obtain ⟨entry, hmem, hkey⟩ := List.lookup_isSome_iff.mp h
  rw [beq_iff_eq.mp hkey]
  exact List.mem_map_of_mem hmem

section Load

variable {α : Type} (decode : String → Option α) (malformed : String → Fault)

/-- Loading decodes the content of a file, and counts one reading of it. -/
theorem load_run (s : FileStore) (path : String) :
    s.load decode malformed path
      = (match s.content? path with
          | none => .error (missing (FilePath.clean path))
          | some text => (decode text).elim (.error (malformed path)) .ok,
          s.countReading path) := by
  unfold FileStore.load FileStore.read
  cases s.content? path with
  | none => rfl
  | some text =>
      simp only
      cases decode text <;> rfl

/-- Loading leaves the files as they are. -/
theorem sameFiles_load (s : FileStore) (path : String) :
    SameFiles (s.load decode malformed path).2 s := by
  rw [load_run]
  exact ⟨rfl, rfl⟩

theorem SameFiles.of_load {path : String} {a : Except Fault α} {s' : FileStore}
    (hl : s.load decode malformed path = (a, s')) : SameFiles s' s := by
  have hs := sameFiles_load decode malformed s path
  rw [hl] at hs
  exact hs

theorem SameFiles.load_eq (h : SameFiles s t) (path : String) :
    (s.load decode malformed path).1 = (t.load decode malformed path).1 := by
  rw [load_run, load_run, h.content?_eq]

/-- What is loaded was decoded from the content of a file. -/
theorem load_eq_ok_iff {path : String} {a : α} :
    (s.load decode malformed path).1 = .ok a
      ↔ ∃ text, s.content? path = some text ∧ decode text = some a := by
  rw [load_run]
  cases s.content? path with
  | none => exact ⟨nofun, nofun⟩
  | some text =>
      simp only [Option.some.injEq, exists_eq_left']
      cases decode text with
      | none => exact ⟨nofun, nofun⟩
      | some b => simp

/-- What cannot be loaded is missing or malformed. -/
theorem load_eq_error {path : String} {fault : Fault}
    (h : (s.load decode malformed path).1 = .error fault) :
    fault = missing (FilePath.clean path) ∨ fault = malformed path := by
  rw [load_run] at h
  cases hc : s.content? path with
  | none =>
      rw [hc] at h
      exact Or.inl (Except.error.inj h).symm
  | some text =>
      rw [hc] at h
      simp only at h
      cases hd : decode text with
      | none =>
          rw [hd] at h
          exact Or.inr (Except.error.inj h).symm
      | some a =>
          rw [hd] at h
          cases h

/-- What was loaded from one store can be loaded from any with the same
files. -/
theorem SameFiles.load_transfer (h : SameFiles s t) {path : String} {a : Except Fault α}
    {s' : FileStore} (hl : s.load decode malformed path = (a, s')) :
    ∃ t', t.load decode malformed path = (a, t') ∧ SameFiles s' t' := by
  have ha := h.load_eq decode malformed path
  have ht := sameFiles_load decode malformed t path
  rw [hl] at ha
  refine ⟨(t.load decode malformed path).2, ?_,
    (SameFiles.of_load decode malformed hl).trans (h.trans ht.symm)⟩
  rw [show a = (t.load decode malformed path).1 from ha]

end Load

end FileStore

open FileStore (SameFiles)

-- ===================================================== package files

namespace PackageFiles

/-- The descriptor that the files of a store have at a path. -/
def descriptorAt (s : FileStore) (path : String) : Option PackageDescriptor :=
  (PackageDescriptor.load s path).1.toOption

/-- A file has a descriptor if its text holds one. -/
theorem descriptorAt_eq_some_iff {s : FileStore} {path : String} {d : PackageDescriptor} :
    descriptorAt s path = some d
      ↔ ∃ text, s.content? path = some text ∧ PackageDescriptor.ofText? text = some d := by
  unfold descriptorAt
  refine Iff.trans ?_ (FileStore.load_eq_ok_iff _ PackageDescriptor.malformed)
  show (PackageDescriptor.load s path).1.toOption = some d ↔ (PackageDescriptor.load s path).1 = _
  cases (PackageDescriptor.load s path).1 with
  | ok d' => exact ⟨fun h => congrArg _ (Option.some.inj h), fun h => congrArg _ (Except.ok.inj h)⟩
  | error fault => exact ⟨nofun, nofun⟩

/-- Files that are those of the store, with descriptors that were read from
them. -/
def Over (s : FileStore) (f : PackageFiles) : Prop :=
  SameFiles f.store s ∧ f.descriptors.Holds (descriptorAt s)

theorem over_ofStore (s : FileStore) : Over s (.ofStore s) :=
  ⟨SameFiles.refl s, Memo.holds_empty _⟩

variable {s : FileStore}

theorem descriptorAt_eq {t : FileStore} (h : SameFiles s t) : descriptorAt s = descriptorAt t := by
  funext path
  unfold descriptorAt PackageDescriptor.load
  rw [h.load_eq]

/-- Reading a descriptor gives what the files have and counts the reading. -/
theorem readDescriptor_run (path : String) (f : PackageFiles) :
    readDescriptor path f
      = (descriptorAt f.store path,
          { f with store := (PackageDescriptor.load f.store path).2 }) := by
  unfold readDescriptor descriptorAt
  cases PackageDescriptor.load f.store path with
  | mk answer store =>
      cases answer with
      | ok descriptor => rfl
      | error fault => rfl

/-- A descriptor that is remembered is answered from memory. -/
theorem descriptor?_of_known {f : PackageFiles} {path : String}
    {answer : Option PackageDescriptor}
    (h : f.descriptors.peek? (FilePath.clean path) = some answer) :
    descriptor? path f
      = (answer, { f with descriptors := (f.descriptors.get? (FilePath.clean path)).2 }) := by
  have hget := f.descriptors.get?_fst (FilePath.clean path)
  rw [h] at hget
  simp only [descriptor?, run_bind, run_get, run_modify, hget]
  rfl

/-- A descriptor that is not remembered is read, and what is read is kept. -/
theorem descriptor?_of_unknown {f : PackageFiles} {path : String}
    (h : f.descriptors.peek? (FilePath.clean path) = none) :
    descriptor? path f
      = let read := readDescriptor (FilePath.clean path)
          { f with descriptors := (f.descriptors.get? (FilePath.clean path)).2 }
        let kept := read.2.descriptors.insert (FilePath.clean path) read.1
        (kept.1, { read.2 with descriptors := kept.2 }) := by
  have hget := f.descriptors.get?_fst (FilePath.clean path)
  rw [h] at hget
  simp only [descriptor?, run_bind, run_get, run_modify, hget]
  rfl

/-- Looking a descriptor up leaves the files alone, answers what is remembered
or else what the files have, and remembers the answer. -/
theorem descriptor?_spec (path : String) (f : PackageFiles) :
    SameFiles (descriptor? path f).2.store f.store ∧
      (descriptor? path f).1 = (f.descriptors.peek? (FilePath.clean path)).getD
        (descriptorAt f.store (FilePath.clean path)) ∧
      ∀ key, (descriptor? path f).2.descriptors.peek? key
        = (f.descriptors.peek? key).or
            (if key = FilePath.clean path then some (descriptor? path f).1 else none) := by
  cases hp : f.descriptors.peek? (FilePath.clean path) with
  | some answer =>
      rw [descriptor?_of_known hp]
      refine ⟨SameFiles.refl _, rfl, fun key => ?_⟩
      show (f.descriptors.get? (FilePath.clean path)).2.peek? key = _
      rw [Memo.peek?_get?]
      by_cases hkey : key = FilePath.clean path
      · rw [hkey, hp, Option.some_or]
      · rw [if_neg hkey, Option.or_none]
  | none =>
      have hkept := Memo.insert_fst_of_none
        ((Memo.peek?_get? f.descriptors (FilePath.clean path) (FilePath.clean path)).trans hp)
      rw [descriptor?_of_unknown hp]
      simp only [readDescriptor_run, hkept, Memo.peek?_insert, Memo.peek?_get?]
      exact ⟨FileStore.sameFiles_load _ _ _ _, rfl, fun _ => trivial⟩

/-- Remembered or not, the descriptor at a path is what the files have. -/
theorem answers_descriptor? (path : String) :
    Answers (Over s) (descriptor? path) (descriptorAt s (FilePath.clean path)) := by
  intro f hf
  obtain ⟨hsame, hanswer, hkept⟩ := descriptor?_spec path f
  have ha : (descriptor? path f).1 = descriptorAt s (FilePath.clean path) := by
    rw [hanswer, descriptorAt_eq hf.1]
    cases hp : f.descriptors.peek? (FilePath.clean path) with
    | none => rfl
    | some answer => exact hf.2 _ _ hp
  refine ⟨ha, hsame.trans hf.1, fun key answer hk => ?_⟩
  rw [hkept, ha] at hk
  rcases Memo.kept_or_new hk with hearlier | ⟨-, rfl, rfl⟩
  · exact hf.2 key answer hearlier
  · rfl

-- ============================================================ searches

/-- A search that only looks: it asks what files there are and looks
descriptors up, and has no other way to get at what is remembered. -/
inductive Looks : {α : Type} → Search α → Prop where
  | pure {α : Type} (a : α) : Looks (pure a)
  | files {α : Type} {f : FileStore → α} (h : ∀ s t, SameFiles s t → f s = f t) :
      Looks fun p => (f p.store, p)
  | descriptor (path : String) : Looks (descriptor? path)
  | bind {α β : Type} {search : Search α} {next : α → Search β} (h : Looks search)
      (hn : ∀ a, Looks (next a)) : Looks (search >>= next)

/-- What a search finds that only looks depends on the files alone. -/
theorem Looks.steady {α : Type} {search : Search α} (h : Looks search) (s : FileStore) :
    Steady (Over s) search := by
  induction h with
  | pure a => exact Steady.pure a
  | @files α f h =>
      exact (Answers.ofRead (a := f s) fun p hp => h p.store s hp.1).steady
  | descriptor path => exact (answers_descriptor? path).steady
  | bind h hn ih ihn => exact Steady.bind ih ihn

/-- The later files are the earlier ones after some looking: no file has
changed, and no descriptor has come to be remembered but those that the files
have. -/
def Grown (earlier later : PackageFiles) : Prop :=
  SameFiles later.store earlier.store ∧
    ∀ path d, later.descriptors.peek? path = some (some d) →
      earlier.descriptors.peek? path = some (some d) ∨ descriptorAt earlier.store path = some d

theorem Grown.refl (f : PackageFiles) : Grown f f :=
  ⟨SameFiles.refl _, fun _ _ => Or.inl⟩

theorem Grown.trans {f g h : PackageFiles} (hfg : Grown f g) (hgh : Grown g h) : Grown f h := by
  refine ⟨hgh.1.trans hfg.1, fun path d hd => ?_⟩
  rcases hgh.2 path d hd with hd | hd
  · exact hfg.2 path d hd
  · rw [descriptorAt_eq hfg.1] at hd
    exact Or.inr hd

theorem grown_descriptor? (path : String) (f : PackageFiles) : Grown f (descriptor? path f).2 := by
  obtain ⟨hsame, hanswer, hkept⟩ := descriptor?_spec path f
  refine ⟨hsame, fun key d hk => ?_⟩
  rw [hkept] at hk
  rcases Memo.kept_or_new hk with hearlier | ⟨hnone, rfl, hnew⟩
  · exact Or.inl hearlier
  · rw [hanswer, hnone, Option.getD_none] at hnew
    exact Or.inr hnew

/-- A search that only looks does no more than that. -/
theorem Looks.grown {α : Type} {search : Search α} (h : Looks search) (f : PackageFiles) :
    Grown f (search f).2 := by
  induction h generalizing f with
  | pure a => exact Grown.refl f
  | files h => exact Grown.refl f
  | descriptor path => exact grown_descriptor? path f
  | bind h hn ih ihn => exact (ih f).trans (ihn _ _)

end PackageFiles

end ImportResolution
