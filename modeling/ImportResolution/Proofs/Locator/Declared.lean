/-
The order in which projects and installed packages are declared. A locator uses
what is declared in three ways: it looks for the project of a path, for the
project that declares a package name, and for the package that a descriptor
describes. Where two nodes are taken for each other, one of these depends on
which of them comes first or last; in a graph without problems none does. So a
locator of the graph in another order is the same for all that is resolved
(`resolveAll_of_perm`).
-/
import ImportResolution.Proofs.InstalledPackages
import ImportResolution.Proofs.Locator.Recall
import ImportResolution.Proofs.ProjectRoots
import ImportResolution.Proofs.Workspace.Problems

namespace ImportResolution

-- ================================================================ lists

/-- Where at most one element is looked for, the first that is found is that one. -/
theorem find?_eq_some_iff_of_unique {α : Type} {p : α → Bool} {list : List α}
    (hunique : ∀ a ∈ list, ∀ b ∈ list, p a = true → p b = true → a = b) {a : α} :
    list.find? p = some a ↔ a ∈ list ∧ p a = true := by
  refine ⟨fun h => ⟨List.mem_of_find?_eq_some h, List.find?_some h⟩, fun ⟨ha, hp⟩ => ?_⟩
  cases hfind : list.find? p with
  | none => exact absurd hp (List.find?_eq_none.mp hfind a ha)
  | some b => rw [hunique b (List.mem_of_find?_eq_some hfind) a ha (List.find?_some hfind) hp]

/-- What at most one element answers to is found in any order. -/
theorem find?_of_perm {α : Type} {p : α → Bool} {list list' : List α} (h : list'.Perm list)
    (hunique : ∀ a ∈ list, ∀ b ∈ list, p a = true → p b = true → a = b) :
    list'.find? p = list.find? p := by
  have hunique' : ∀ a ∈ list', ∀ b ∈ list', p a = true → p b = true → a = b :=
    fun a ha b hb => hunique a (h.mem_iff.mp ha) b (h.mem_iff.mp hb)
  refine Option.ext fun a => ?_
  rw [find?_eq_some_iff_of_unique hunique, find?_eq_some_iff_of_unique hunique', h.mem_iff]

/-- If nothing answers together with anything apart from it, at most one element of
a list answers in which any two are apart. -/
theorem unique_of_pairwise {α : Type} {apart : α → α → Prop} [Std.Symm apart] {p : α → Bool}
    {list : List α} (h : list.Pairwise apart)
    (hp : ∀ a b, p a = true → p b = true → ¬ apart a b) :
    ∀ a ∈ list, ∀ b ∈ list, p a = true → p b = true → a = b := by
  intro a ha b hb hpa hpb
  by_contra hne
  exact hp a b hpa hpb (h.forall ha hb hne)

-- ========================================================== declarations

section Declared

variable {g : WorkspaceGraph} (hg : g.Distinct) {projects : List Project}
  {externals : List External}

include hg

/-- A root has its project in any order. -/
theorem WorkspaceGraph.Distinct.lookup_ofProjects (hp : projects.Perm g.projects)
    (installed root : String) :
    (ProjectRoots.ofProjects projects installed).entries.lookup root
      = (ProjectRoots.ofProjects g.projects installed).entries.lookup root := by
  have hlookup (projects : List Project) :
      (ProjectRoots.ofProjects projects installed).entries.lookup root
        = (projects.reverse.find? (WorkspacePath.normalize ·.root == root)).map (·.name) := by
    rw [ProjectRoots.ofProjects, Table.lookup_ofEntries, ← List.map_reverse, List.find?_map,
      Option.map_map]
    rfl
  have hreverse : projects.reverse.Perm g.projects.reverse :=
    (List.reverse_perm _).trans (hp.trans (List.reverse_perm _).symm)
  have hapart : g.projects.reverse.Pairwise Project.Apart :=
    List.pairwise_reverse.mpr (hg.projects.imp fun h => Std.Symm.symm _ _ h)
  rw [hlookup, hlookup, find?_of_perm hreverse (unique_of_pairwise hapart fun p q hp hq h => ?_)]
  exact h.1 ((beq_iff_eq.mp hp).trans (beq_iff_eq.mp hq).symm)

/-- A path has its project in any order. -/
theorem WorkspaceGraph.Distinct.projectOf?_of_perm (hp : projects.Perm g.projects)
    (installed : String) :
    (ProjectRoots.ofProjects projects installed).projectOf?
      = (ProjectRoots.ofProjects g.projects installed).projectOf? := by
  funext path
  have hlookup := funext (hg.lookup_ofProjects hp installed)
  unfold ProjectRoots.projectOf?
  simp only [hlookup]
  rfl

/-- A package name has its project in any order. -/
theorem WorkspaceGraph.Distinct.find?_packageName (hp : projects.Perm g.projects)
    (package : String) :
    projects.find? (·.metadata.packageName == some package)
      = g.projects.find? (·.metadata.packageName == some package) := by
  refine find?_of_perm hp (unique_of_pairwise hg.projects fun p q hp hq hapart => ?_)
  exact hapart.2 package (beq_iff_eq.mp hp) (beq_iff_eq.mp hq)

/-- A name and a version have their package in any order. -/
theorem WorkspaceGraph.Distinct.find?_describes (he : externals.Perm g.externals)
    (name version : String) :
    externals.find? (·.describes name version) = g.externals.find? (·.describes name version) := by
  refine find?_of_perm he (unique_of_pairwise hg.externals fun a b ha hb hapart => ?_)
  simp only [External.describes, Bool.and_eq_true, beq_iff_eq] at ha hb
  exact hapart (by rw [ha.1, ha.2, hb.1, hb.2])

end Declared

-- ============================================================== locators

/-- Knowing the same of what is installed, and looking for it in the same way, is
all that counts for a package. -/
theorem InstalledPackages.resolve_congr {p p' : InstalledPackages}
    (hroot : p.workspaceRoot = p'.workspaceRoot) (hlocate : p.locate = p'.locate)
    (hdescribed : p.described? = p'.described?) : p.resolve = p'.resolve := by
  have hlookUp : p.lookUp = p'.lookUp := by
    funext package context
    unfold lookUp
    rw [hroot, hlocate, hdescribed]
  funext specifier context
  unfold resolve
  rw [hlookUp]

namespace Locator

/-- The two locators cannot be told apart by what they look up. -/
structure Alike (l l' : Locator) : Prop where
  workspaceRoot : l.workspaceRoot = l'.workspaceRoot
  settings : l.settings = l'.settings
  collaborators : l.collaborators = l'.collaborators
  projectOf? : l.roots.projectOf? = l'.roots.projectOf?
  packageOwner? : l.packageOwner? = l'.packageOwner?
  described? : l.installedPackages.described? = l'.installedPackages.described?

namespace Alike

variable {l l' : Locator} (h : Alike l l')

include h

theorem compilerConfig?_eq : l.compilerConfig? = l'.compilerConfig? := by
  unfold compilerConfig?
  rw [h.collaborators]

theorem tryRelative_eq : l.tryRelative = l'.tryRelative := by
  funext specifier file
  unfold tryRelative isInstalled
  rw [h.settings, h.projectOf?]

theorem tryAliases_eq : l.tryAliases = l'.tryAliases := by
  funext specifier
  unfold tryAliases projectOfFile?
  rw [h.compilerConfig?_eq, h.workspaceRoot, h.projectOf?]

theorem tryModuleSearch_eq : l.tryModuleSearch = l'.tryModuleSearch := by
  funext resolver specifier file
  unfold tryModuleSearch projectOfFound? isInstalled
  rw [h.workspaceRoot, h.settings, h.projectOf?]

theorem attempt_eq : l.attempt = l'.attempt := by
  have hresolve : l.installedPackages.resolve = l'.installedPackages.resolve := by
    refine InstalledPackages.resolve_congr h.workspaceRoot ?_ h.described?
    exact congrArg Collaborators.locatePackage h.collaborators
  funext specifier context file strategy
  cases strategy with
  | relative => simp only [attempt, h.tryRelative_eq]
  | pathMapping => exact congrFun h.tryAliases_eq specifier
  | builtin => simp only [attempt, tryBuiltins, h.settings]
  | external => simp only [attempt, hresolve]
  | languageFallback =>
      simp only [attempt, tryLanguage, h.settings, h.collaborators, h.compilerConfig?_eq,
        h.tryModuleSearch_eq]
  | workspacePackage => simp only [attempt, h.packageOwner?]
  | runtimeFallback =>
      simp only [attempt, tryRuntime, h.settings, h.collaborators, h.tryModuleSearch_eq]

theorem tryStrategies_eq (specifier context file : String) (strategies : List Strategy) :
    l.tryStrategies specifier context file strategies
      = l'.tryStrategies specifier context file strategies := by
  induction strategies with
  | nil => rfl
  | cons strategy rest ih => rw [tryStrategies, tryStrategies, h.attempt_eq, ih]

theorem resolve_eq : l.resolve = l'.resolve := by
  funext specifier context file
  unfold resolve
  simp only [h.tryStrategies_eq]

theorem resolveAll_eq (calls : List Call) : l.resolveAll calls = l'.resolveAll calls := by
  induction calls with
  | nil => rfl
  | cons c rest ih => rw [resolveAll, resolveAll, ih, resolveCall, resolveCall, h.resolve_eq]

end Alike

/-- Locators of one graph in two orders cannot be told apart. -/
theorem alike_of_perm {g : WorkspaceGraph} (hg : g.Distinct) {projects : List Project}
    {externals : List External} (hp : projects.Perm g.projects) (he : externals.Perm g.externals)
    (root : String) (settings : Settings) (collaborators : Collaborators) :
    Alike (build root settings projects externals collaborators)
      (build root settings g.projects g.externals collaborators) where
  workspaceRoot := rfl
  settings := rfl
  collaborators := rfl
  projectOf? := hg.projectOf?_of_perm hp settings.installedDirectory
  packageOwner? := by
    funext package
    exact congrArg _ (hg.find?_packageName hp package)
  described? := by
    funext descriptor
    rw [InstalledPackages.described?_eq, InstalledPackages.described?_eq]
    congr 1
    funext declared
    exact congrArg (Option.bind · _) (hg.find?_describes he declared.1 declared.2)

/-- A graph without problems can be declared in any order: whatever the files, the
settings and the helpers are, and whatever has been remembered, a run of calls is
answered with the same results from the same sources, and leaves the same memory. -/
theorem resolveAll_of_perm {g g' : WorkspaceGraph} (hg : g.problems = [])
    (hp : g'.projects.Perm g.projects) (he : g'.externals.Perm g.externals) (root : String)
    (settings : Settings) (collaborators : Collaborators) (calls : List Call) (m : Memory) :
    (build root settings g'.projects g'.externals collaborators).resolveAll calls m
      = (build root settings g.projects g.externals collaborators).resolveAll calls m := by
  have hdistinct := WorkspaceGraph.problems_eq_nil_iff.mp hg
  rw [(alike_of_perm hdistinct hp he root settings collaborators).resolveAll_eq calls]

/-- A graph with two versions of one package. -/
def twoVersions : WorkspaceGraph :=
  ⟨[.ofRoot "app" "apps/app" none, .ofRoot "lib" "libs/lib" (some "@org/lib")],
    [.npm "dep" "1.0.0", .npm "dep" "2.0.0"]⟩

/-- That graph has no problems, and a new locator answers alike when it is declared
the other way round. -/
theorem resolveAll_of_reversed :
    let reversed : WorkspaceGraph := ⟨twoVersions.projects.reverse, twoVersions.externals.reverse⟩
    let helpers := Collaborators.standard "/ws" .standard
    let calls : List Call := [⟨"dep", "apps/app", "apps/app/x.ts"⟩,
      ⟨"@org/lib", "apps/app", "apps/app/x.ts"⟩, ⟨"../../libs/lib", "apps/app", "apps/app/x.ts"⟩]
    twoVersions.problems = [] ∧ reversed.projects.Perm twoVersions.projects ∧
      reversed.externals.Perm twoVersions.externals ∧
      (build "/ws" .standard reversed.projects reversed.externals helpers).resolveAll calls
          (.ofStore .empty)
        = (build "/ws" .standard twoVersions.projects twoVersions.externals helpers).resolveAll
          calls (.ofStore .empty) := by
  intro reversed helpers calls
  have hproblems : twoVersions.problems = [] := by decide +kernel
  have hprojects : reversed.projects.Perm twoVersions.projects := List.reverse_perm _
  have hexternals : reversed.externals.Perm twoVersions.externals := List.reverse_perm _
  exact ⟨hproblems, hprojects, hexternals, resolveAll_of_perm hproblems hprojects hexternals
    "/ws" .standard helpers calls (.ofStore .empty)⟩

end Locator

end ImportResolution
