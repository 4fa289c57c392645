/-
What is remembered of installed packages cannot be told from the answers: the
known package that a name leads to in a context is one function of the files
(`InstalledPackages.installedAt`), whatever was looked up before.
-/
import ImportResolution.InstalledPackages
import ImportResolution.Proofs.SameFiles
import Mathlib.Data.List.Basic

namespace ImportResolution.InstalledPackages

open FileStore (SameFiles)
open PackageFiles (descriptor?)

variable {p : InstalledPackages}

-- =========================================================== the index

/-- Entering packages one by one adds the place of each under its name, after
those that are there. -/
theorem lookup_foldl_places (externals : List External) (name : String) (k : Nat)
    (places : List (String × List Nat)) :
    (((externals.zipIdx k).foldl (fun places e =>
        Table.put e.1.packageName ((places.lookup e.1.packageName).getD [] ++ [e.2]) places)
        places).lookup name).getD []
      = (places.lookup name).getD []
        ++ ((externals.zipIdx k).filter (·.1.packageName == name)).map Prod.snd := by
  induction externals generalizing k places with
  | nil => simp
  | cons e rest ih =>
      rw [List.zipIdx_cons, List.foldl_cons, ih, Table.lookup_put, List.filter_cons]
      by_cases hname : name = e.packageName
      · simp [hname]
      · have hne : (e.packageName == name) = false := by simpa using Ne.symm hname
        simp [hname, hne]

/-- The index forgets no package and keeps their order. -/
theorem named_eq (p : InstalledPackages) (name : String) :
    p.named name = p.externals.filter (·.packageName == name) := by
  have hplaces := lookup_foldl_places p.externals name 0 []
  rw [List.lookup_nil, Option.getD_none, List.nil_append] at hplaces
  -- each place is that of the package that it was entered for
  have hplace : ∀ e ∈ p.externals.zipIdx.filter (·.1.packageName == name),
      p.externals[e.2]? = some e.1 := by
    intro e he
    exact List.mem_zipIdx_iff_getElem?.mp (List.mem_filter.mp he).1
  have hfirst := List.filter_map (f := Prod.fst) (p := fun e : External => e.packageName == name)
    (l := p.externals.zipIdx)
  rw [List.zipIdx_map_fst] at hfirst
  unfold named placesByName
  rw [hplaces, List.filterMap_map, hfirst]
  exact List.filterMap_eq_map_iff_forall_eq_some.mpr hplace

/-- A descriptor is matched as if all known packages were looked through. -/
theorem described?_eq (p : InstalledPackages) (descriptor : PackageDescriptor) :
    p.described? descriptor
      = descriptor.nameAndVersion?.bind fun declared =>
        (p.externals.find? (·.describes declared.1 declared.2)).bind fun e => some e.name := by
  unfold described?
  cases descriptor.nameAndVersion? with
  | none => rfl
  | some declared =>
      show ((p.named declared.1).find? (·.describes declared.1 declared.2)).bind _ = _
      rw [named_eq, List.find?_filter]
      congr 2
      funext e
      rw [Bool.eq_iff_iff, decide_eq_true_eq, External.describes, Bool.and_eq_true]
      exact ⟨And.right, fun h => ⟨h.1, h⟩⟩

-- ================================================================ runs

@[simp] theorem run_withFiles {α : Type} (search : Search α) (m : Memory) :
    withFiles search m = ((search m.files).1, { m with files := (search m.files).2 }) :=
  rfl

/-- A look-up is counted, asks for the installation once, and reads no more
than the descriptor that it is pointed to. -/
theorem lookUp_run (p : InstalledPackages) (package context : String) (m : Memory) :
    p.lookUp package context m
      = match p.locate m.files.store package
          (FilePath.clean (FilePath.join p.workspaceRoot context)) with
        | none => (none, { m with searches := m.searches + 1 })
        | some path =>
          ((descriptor? path m.files).1.bind p.described?,
            { m with searches := m.searches + 1, files := (descriptor? path m.files).2 }) := by
  simp only [lookUp, run_bind, run_get, run_modify]
  cases p.locate m.files.store package
      (FilePath.clean (FilePath.join p.workspaceRoot context)) with
  | none => rfl
  | some path =>
      simp only [run_bind, run_withFiles]
      cases (descriptor? path m.files).1 with
      | none => rfl
      | some descriptor => rfl

/-- A look-up looks at the files and does no more. -/
theorem grown_lookUp (p : InstalledPackages) (package context : String) (m : Memory) :
    m.files.Grown (p.lookUp package context m).2.files := by
  rw [lookUp_run]
  cases p.locate m.files.store package
      (FilePath.clean (FilePath.join p.workspaceRoot context)) with
  | none => exact PackageFiles.Grown.refl _
  | some path => exact PackageFiles.grown_descriptor? path m.files

/-- A package that was asked for in the context is answered from memory. -/
theorem resolve_of_known {specifier context : String} {m : Memory} {answer : Option String}
    (h : m.answers.peek? (Specifier.packageName specifier, context) = some answer) :
    p.resolve specifier context m
      = (answer, { m with
          answers := (m.answers.get? (Specifier.packageName specifier, context)).2 }) := by
  have hget := m.answers.get?_fst (Specifier.packageName specifier, context)
  rw [h] at hget
  simp only [resolve, run_bind, run_get, run_modify, hget]
  rfl

/-- A package that was not asked for in the context is looked up, and the
outcome is kept. -/
theorem resolve_of_unknown {specifier context : String} {m : Memory}
    (h : m.answers.peek? (Specifier.packageName specifier, context) = none) :
    p.resolve specifier context m
      = let key := (Specifier.packageName specifier, context)
        let found := p.lookUp key.1 context { m with answers := (m.answers.get? key).2 }
        let kept := found.2.answers.insert key found.1
        (kept.1, { found.2 with answers := kept.2 }) := by
  have hget := m.answers.get?_fst (Specifier.packageName specifier, context)
  rw [h] at hget
  simp only [resolve, run_bind, run_get, run_modify, hget]
  rfl

theorem lookUp_answers (p : InstalledPackages) (package context : String) (m : Memory) :
    (p.lookUp package context m).2.answers = m.answers := by
  rw [lookUp_run]
  cases p.locate m.files.store package
      (FilePath.clean (FilePath.join p.workspaceRoot context)) <;> rfl

/-- A specifier gets the answer that its package has in the context, or else what
is looked up, and this is then the answer. -/
theorem resolve_cases (p : InstalledPackages) (specifier context : String) (m : Memory) :
    (∃ answer, m.answers.peek? (Specifier.packageName specifier, context) = some answer ∧
      (p.resolve specifier context m).1 = answer ∧
      (p.resolve specifier context m).2.files = m.files ∧
      ∀ key, (p.resolve specifier context m).2.answers.peek? key = m.answers.peek? key) ∨
    (m.answers.peek? (Specifier.packageName specifier, context) = none ∧
      (p.resolve specifier context m).1
        = (p.lookUp (Specifier.packageName specifier) context m).1 ∧
      (p.resolve specifier context m).2.files
        = (p.lookUp (Specifier.packageName specifier) context m).2.files ∧
      ∀ key, (p.resolve specifier context m).2.answers.peek? key
        = (m.answers.peek? key).or (if key = (Specifier.packageName specifier, context) then
            some (p.lookUp (Specifier.packageName specifier) context m).1 else none)) := by
  cases hk : m.answers.peek? (Specifier.packageName specifier, context) with
  | some answer =>
      rw [resolve_of_known hk]
      exact Or.inl ⟨answer, rfl, rfl, rfl, fun key => Memo.peek?_get? ..⟩
  | none =>
      have hlookUp : ∀ answers,
          (p.lookUp (Specifier.packageName specifier) context { m with answers }).1
              = (p.lookUp (Specifier.packageName specifier) context m).1 ∧
            (p.lookUp (Specifier.packageName specifier) context { m with answers }).2.files
              = (p.lookUp (Specifier.packageName specifier) context m).2.files := by
        intro answers
        rw [lookUp_run, lookUp_run]
        cases p.locate m.files.store (Specifier.packageName specifier)
            (FilePath.clean (FilePath.join p.workspaceRoot context)) with
        | none => exact ⟨rfl, rfl⟩
        | some path => exact ⟨rfl, rfl⟩
      rw [resolve_of_unknown hk]
      refine Or.inr ⟨rfl, ?_⟩
      have hkept := Memo.insert_fst_of_none
        ((Memo.peek?_get? m.answers (Specifier.packageName specifier, context)
          (Specifier.packageName specifier, context)).trans hk)
      simp only [lookUp_answers, hlookUp, hkept, Memo.peek?_insert, Memo.peek?_get?]
      exact ⟨trivial, trivial, fun _ => trivial⟩

-- ======================================================== transparency

/-- The known package that the files have under a name for a context. -/
def installedAt (p : InstalledPackages) (s : FileStore) (package context : String) :
    Option String :=
  (p.locate s package (FilePath.clean (FilePath.join p.workspaceRoot context))).bind fun path =>
    (PackageFiles.descriptorAt s (FilePath.clean path)).bind p.described?

/-- All that is remembered is what the files of the store say. -/
def Memory.Over (p : InstalledPackages) (s : FileStore) (m : Memory) : Prop :=
  m.files.Over s ∧ m.answers.Holds fun key => p.installedAt s key.1 key.2

theorem over_ofStore (p : InstalledPackages) (s : FileStore) : Memory.Over p s (.ofStore s) :=
  ⟨PackageFiles.over_ofStore s, Memo.holds_empty _⟩

variable {s : FileStore}

/-- A look-up finds what the files have. -/
theorem answers_lookUp (hp : ∀ t, SameFiles t s → p.locate t = p.locate s)
    (package context : String) :
    Answers (Memory.Over p s) (p.lookUp package context) (p.installedAt s package context) := by
  intro m hm
  rw [lookUp_run, hp _ hm.1.1]
  unfold installedAt
  cases p.locate s package (FilePath.clean (FilePath.join p.workspaceRoot context)) with
  | none => exact ⟨rfl, hm⟩
  | some path =>
      obtain ⟨ha, hover⟩ := PackageFiles.answers_descriptor? path m.files hm.1
      refine ⟨?_, hover, hm.2⟩
      show (descriptor? path m.files).1.bind p.described? = _
      rw [ha]
      rfl

/-- Remembered or not, a specifier leads to what the files have. -/
theorem answers_resolve (hp : ∀ t, SameFiles t s → p.locate t = p.locate s)
    (specifier context : String) :
    Answers (Memory.Over p s) (p.resolve specifier context)
      (p.installedAt s (Specifier.packageName specifier) context) := by
  intro m hm
  have hget : Memory.Over p s { m with
      answers := (m.answers.get? (Specifier.packageName specifier, context)).2 } :=
    ⟨hm.1, hm.2.get? _⟩
  cases hk : m.answers.peek? (Specifier.packageName specifier, context) with
  | some answer =>
      rw [resolve_of_known hk]
      exact ⟨hm.2 _ _ hk, hget⟩
  | none =>
      rw [resolve_of_unknown hk]
      obtain ⟨ha, hover⟩ := answers_lookUp hp (Specifier.packageName specifier) context _ hget
      have hins := hover.2.insert (Specifier.packageName specifier, context)
      simp only [ha]
      exact ⟨hins.1, hover.1, hins.2⟩

end ImportResolution.InstalledPackages
