/-
When a workspace graph has no problems. The search for problems walks through
the nodes with tables of what it has met, so that a later node is compared with
the last earlier one only. It misses nothing by that: no problem is told exactly
if no two installed packages have one name and version, and no two projects
have one root in normal form or declare one package name
(`problems_eq_nil_iff`). Whether two projects have one name is not asked.
-/
import ImportResolution.Workspace.Graph
import Mathlib.Data.List.Pairwise

namespace ImportResolution

-- ================================================================ apart

/-- The two packages have not both one name and one version. -/
def External.Apart (a b : External) : Prop :=
  (a.packageName, a.version) ≠ (b.packageName, b.version)

/-- The two projects have different roots, and do not declare one package name. -/
def Project.Apart (p q : Project) : Prop :=
  WorkspacePath.normalize p.root ≠ WorkspacePath.normalize q.root ∧
    ∀ package, p.metadata.packageName = some package → q.metadata.packageName ≠ some package

instance : Std.Symm External.Apart where
  symm _ _ h := Ne.symm h

instance : Std.Symm Project.Apart where
  symm _ _ h := ⟨h.1.symm, fun package hq hp => h.2 package hp hq⟩

namespace WorkspaceGraph

/-- No two nodes of the graph are taken for each other: any two packages and any
two projects are apart. -/
structure Distinct (g : WorkspaceGraph) : Prop where
  externals : g.externals.Pairwise External.Apart
  projects : g.projects.Pairwise Project.Apart

-- ============================================================ the search

/-- No package is repeated exactly if any two are apart and none has been met
before. -/
theorem shadowed_eq_nil_iff (seen : List (String × String)) (externals : List External) :
    shadowed seen externals = []
      ↔ externals.Pairwise External.Apart ∧
        ∀ e ∈ externals, (e.packageName, e.version) ∉ seen := by
  induction externals generalizing seen with
  | nil => simp [shadowed]
  | cons e rest ih =>
      unfold shadowed
      by_cases he : (e.packageName, e.version) ∈ seen
      · rw [if_pos he]
        exact ⟨nofun, fun h => absurd he (h.2 e (List.mem_cons_self ..))⟩
      · rw [if_neg he, ih, List.pairwise_cons, List.forall_mem_cons]
        simp only [List.mem_cons, not_or]
        constructor
        · rintro ⟨hrest, hnew⟩
          exact ⟨⟨fun e' he' heq => (hnew e' he').1 heq.symm, hrest⟩, he,
            fun e' he' => (hnew e' he').2⟩
        · rintro ⟨⟨hapart, hrest⟩, -, hnew⟩
          exact ⟨hrest, fun e' he' => ⟨fun heq => hapart e' he' heq.symm, hnew e' he'⟩⟩

/-- The packages that were met, after one more project. -/
def withPackage (p : Project) (packages : List (String × String)) : List (String × String) :=
  match p.metadata.packageName with
  | some package => Table.put package p.name packages
  | none => packages

theorem lookup_withPackage (p : Project) (packages : List (String × String)) (package : String) :
    (withPackage p packages).lookup package
      = if p.metadata.packageName = some package then some p.name
        else packages.lookup package := by
  unfold withPackage
  cases hp : p.metadata.packageName with
  | none => simp
  | some own => simp [Table.lookup_put, eq_comm]

/-- Neither the root of the project nor the package name it declares is in the
tables of what has been met. -/
def New (roots packages : List (String × String)) (p : Project) : Prop :=
  roots.lookup (WorkspacePath.normalize p.root) = none ∧
    ∀ package, p.metadata.packageName = some package → packages.lookup package = none

/-- A project that follows another has not been met exactly if it had not been met
before that one, and the two are apart. -/
theorem new_after_iff (p q : Project) (roots packages : List (String × String)) :
    New (Table.put (WorkspacePath.normalize p.root) p.name roots) (withPackage p packages) q
      ↔ p.Apart q ∧ New roots packages q := by
  have hroot : (Table.put (WorkspacePath.normalize p.root) p.name roots).lookup
        (WorkspacePath.normalize q.root) = none
      ↔ WorkspacePath.normalize p.root ≠ WorkspacePath.normalize q.root ∧
        roots.lookup (WorkspacePath.normalize q.root) = none := by
    rw [Table.lookup_put]
    split
    · next h => exact ⟨nofun, fun hne => absurd h.symm hne.1⟩
    · next h => exact ⟨fun hnone => ⟨Ne.symm h, hnone⟩, And.right⟩
  have hpackage (package : String) : (withPackage p packages).lookup package = none
      ↔ p.metadata.packageName ≠ some package ∧ packages.lookup package = none := by
    rw [lookup_withPackage]
    split
    · next h => exact ⟨nofun, fun hne => absurd h hne.1⟩
    · next h => exact ⟨fun hnone => ⟨h, hnone⟩, And.right⟩
  unfold New Project.Apart
  simp only [hroot, hpackage]
  constructor
  · rintro ⟨⟨hapart, hnew⟩, hq⟩
    exact ⟨⟨hapart, fun package hp hq' => (hq package hq').1 hp⟩, hnew,
      fun package hq' => (hq package hq').2⟩
  · rintro ⟨⟨hapart, hdeclared⟩, hnew, hq⟩
    exact ⟨⟨hapart, hnew⟩, fun package hq' => ⟨fun hp => hdeclared package hp hq', hq package hq'⟩⟩

/-- The first project has no clash exactly if it is new, and the search goes on
with its root and its package name entered. -/
theorem clashes_cons_eq_nil_iff (roots packages : List (String × String)) (p : Project)
    (rest : List Project) :
    clashes roots packages (p :: rest) = []
      ↔ New roots packages p ∧
        clashes (Table.put (WorkspacePath.normalize p.root) p.name roots)
          (withPackage p packages) rest = [] := by
  unfold New withPackage
  rw [clashes]
  cases hroot : roots.lookup (WorkspacePath.normalize p.root) with
  | some first => cases p.metadata.packageName <;> simp
  | none =>
      cases p.metadata.packageName with
      | none => simp
      | some package =>
          simp only [Option.some.injEq, forall_eq', true_and, List.nil_append]
          cases packages.lookup package <;> simp

/-- No project clashes exactly if any two are apart and none has been met before. -/
theorem clashes_eq_nil_iff (roots packages : List (String × String)) (projects : List Project) :
    clashes roots packages projects = []
      ↔ projects.Pairwise Project.Apart ∧ ∀ p ∈ projects, New roots packages p := by
  induction projects generalizing roots packages with
  | nil => simp [clashes]
  | cons p rest ih =>
      rw [clashes_cons_eq_nil_iff, ih, List.pairwise_cons, List.forall_mem_cons]
      simp only [new_after_iff]
      constructor
      · rintro ⟨hp, hrest, hnew⟩
        exact ⟨⟨fun q hq => (hnew q hq).1, hrest⟩, hp, fun q hq => (hnew q hq).2⟩
      · rintro ⟨⟨hapart, hrest⟩, hp, hnew⟩
        exact ⟨hp, hrest, fun q hq => ⟨hapart q hq, hnew q hq⟩⟩

/-- No problem is told exactly if no two nodes are taken for each other. -/
theorem problems_eq_nil_iff {g : WorkspaceGraph} : g.problems = [] ↔ g.Distinct := by
  have hnew : ∀ p ∈ g.projects, New [] [] p := fun _ _ => ⟨rfl, fun _ _ => rfl⟩
  rw [problems, List.append_eq_nil_iff, List.map_eq_nil_iff, duplicateExternals,
    shadowed_eq_nil_iff, clashes_eq_nil_iff]
  constructor
  · rintro ⟨⟨hexternals, -⟩, hprojects, -⟩
    exact ⟨hexternals, hprojects⟩
  · rintro ⟨hexternals, hprojects⟩
    exact ⟨⟨hexternals, fun _ _ => List.not_mem_nil⟩, hprojects, hnew⟩

end WorkspaceGraph

end ImportResolution
