/-
Names of projects and the roots they stand for. A graph takes the first project
of a name, a locator the last, and the table of roots is asked for any entry of
the name. In a graph without problems no root is shared, so these three agree
exactly on the names that at most one project has (`root_of_name_iff`).

The search for problems does not look at names: a graph in which two projects
have one name can have no problem, and then the name stands for two roots
(`root_of_repeated_name`).
-/
import ImportResolution.Locator.Basic
import ImportResolution.Proofs.Table
import ImportResolution.Proofs.Workspace.Problems
import Mathlib.Data.List.Nodup

namespace ImportResolution

-- ================================================================ names

namespace WorkspaceGraph

variable {g : WorkspaceGraph}

/-- The projects of a name, in order. -/
def named (g : WorkspaceGraph) (name : String) : List Project :=
  g.projects.filter (·.name == name)

theorem mem_named {name : String} {p : Project} :
    p ∈ g.named name ↔ p ∈ g.projects ∧ p.name = name := by
  rw [named, List.mem_filter, beq_iff_eq]

/-- The root of the project that the graph has under a name, in normal form. -/
def rootOf? (g : WorkspaceGraph) (name : String) : Option String :=
  (g.project? name).map fun p => WorkspacePath.normalize p.root

theorem project?_eq_head? (g : WorkspaceGraph) (name : String) :
    g.project? name = (g.named name).head? :=
  List.head?_filter.symm

/-- Where roots are not shared they are listed as they are declared. -/
theorem Distinct.entries_ofProjects (h : g.Distinct) (installed : String) :
    (ProjectRoots.ofProjects g.projects installed).entries
      = g.projects.map fun p => (WorkspacePath.normalize p.root, p.name) := by
  have hroots : (g.projects.map fun p => WorkspacePath.normalize p.root).Nodup :=
    List.pairwise_map.mpr (h.projects.imp And.left)
  refine Table.ofEntries_of_nodup ?_
  simpa only [Table.keys, List.map_map, Function.comp_def] using hroots

end WorkspaceGraph

namespace Locator

variable {g : WorkspaceGraph} {name : String}

theorem projectRoot?_eq_getLast? (root : String) (settings : Settings) (g : WorkspaceGraph)
    (name : String) :
    (ofGraph root settings g).projectRoot? name
      = (g.named name).getLast?.map fun p => WorkspacePath.normalize p.root := by
  rw [WorkspaceGraph.named, ← List.head?_reverse, ← List.filter_reverse, List.head?_filter]
  rfl

/-- A list of projects of which any two are apart has one element at most if its
first and its last have one root. -/
theorem length_le_one_of_ends {projects : List Project} (h : projects.Pairwise Project.Apart)
    (hends : (projects.getLast?.map fun p => WorkspacePath.normalize p.root)
      = projects.head?.map fun p => WorkspacePath.normalize p.root) : projects.length ≤ 1 := by
  match projects, h with
  | [], _ => exact Nat.zero_le 1
  | [p], _ => exact Nat.le_refl 1
  | p :: q :: rest, h =>
      rw [List.getLast?_cons_cons, List.getLast?_eq_some_getLast (List.cons_ne_nil q rest)] at hends
      have hapart := (List.pairwise_cons.mp h).1 _ (List.getLast_mem (List.cons_ne_nil q rest))
      exact absurd (Option.some.inj hends).symm hapart.1

/-- The locator and the graph mean the same root by a name exactly if no two
projects have it. -/
theorem projectRoot?_eq_rootOf?_iff (root : String) (settings : Settings) (h : g.Distinct)
    (name : String) :
    (ofGraph root settings g).projectRoot? name = g.rootOf? name ↔ (g.named name).length ≤ 1 := by
  rw [projectRoot?_eq_getLast?, WorkspaceGraph.rootOf?, WorkspaceGraph.project?_eq_head?]
  refine ⟨length_le_one_of_ends (h.projects.filter _), fun hle => ?_⟩
  match g.named name, hle with
  | [], _ => rfl
  | [p], _ => rfl

/-- In a graph without problems a name stands for one root, however it is looked
up, and for every project that has it, exactly if at most one project has it. -/
theorem root_of_name_iff (root : String) (settings : Settings) (hg : g.problems = [])
    (name : String) :
    let l := ofGraph root settings g
    (l.projectRoot? name = g.rootOf? name ∧ l.roots.rootOf? name = g.rootOf? name ∧
      (∀ r, (r, name) ∈ l.roots.entries ↔ g.rootOf? name = some r) ∧
      ∀ p ∈ g.projects, p.name = name → g.project? name = some p)
      ↔ (g.named name).length ≤ 1 := by
  intro l
  have hdistinct := WorkspaceGraph.problems_eq_nil_iff.mp hg
  have hentries : l.roots.entries
      = g.projects.map fun p => (WorkspacePath.normalize p.root, p.name) :=
    hdistinct.entries_ofProjects settings.installedDirectory
  refine ⟨fun h => (projectRoot?_eq_rootOf?_iff root settings hdistinct name).mp h.1, fun hle => ?_⟩
  refine ⟨(projectRoot?_eq_rootOf?_iff root settings hdistinct name).mpr hle, ?_, ?_, ?_⟩
  · rw [ProjectRoots.rootOf?, hentries, List.find?_map, Option.map_map]
    rfl
  · intro r
    have hmem : (r, name) ∈ l.roots.entries
        ↔ ∃ p ∈ g.named name, WorkspacePath.normalize p.root = r := by
      rw [hentries, List.mem_map]
      simp only [Prod.mk.injEq, WorkspaceGraph.mem_named]
      constructor
      · rintro ⟨p, hp, hr, hname⟩
        exact ⟨p, ⟨hp, hname⟩, hr⟩
      · rintro ⟨p, ⟨hp, hname⟩, hr⟩
        exact ⟨p, hp, hr, hname⟩
    rw [hmem, WorkspaceGraph.rootOf?, WorkspaceGraph.project?_eq_head?]
    match g.named name, hle with
    | [], _ => simp
    | [p], _ => simp
  · intro p hp hname
    have hmem : p ∈ g.named name := WorkspaceGraph.mem_named.mpr ⟨hp, hname⟩
    rw [WorkspaceGraph.project?_eq_head?]
    match g.named name, hle, hmem with
    | [q], _, hmem => rw [List.mem_singleton.mp hmem, List.head?_cons]

/-- A graph in which two projects have one name. -/
def twoLibs : WorkspaceGraph :=
  ⟨[.ofRoot "app" "./apps/app/" none, .ofRoot "lib" "libs/a" none, .ofRoot "lib" "libs/b" none], []⟩

/-- The other name in that graph stands for one root. -/
theorem root_of_name_beside_repeated :
    let l := ofGraph "/ws" .standard twoLibs
    twoLibs.problems = [] ∧
      ((l.projectRoot? "app" = twoLibs.rootOf? "app" ∧
        l.roots.rootOf? "app" = twoLibs.rootOf? "app" ∧
        (∀ r, (r, "app") ∈ l.roots.entries ↔ twoLibs.rootOf? "app" = some r) ∧
        ∀ p ∈ twoLibs.projects, p.name = "app" → twoLibs.project? "app" = some p)
        ↔ (twoLibs.named "app").length ≤ 1) ∧
      (twoLibs.named "app").length = 1 ∧ twoLibs.rootOf? "app" = some "apps/app" := by
  have hproblems : twoLibs.problems = [] := by decide +kernel
  exact ⟨hproblems, root_of_name_iff "/ws" .standard hproblems "app", by decide +kernel,
    by decide +kernel⟩

/-- No problem is told of that graph, and still the repeated name stands for one
root in the graph and for another in the locator; the table of roots has both. -/
theorem root_of_repeated_name :
    let l := ofGraph "/ws" .standard twoLibs
    twoLibs.problems = [] ∧ twoLibs.rootOf? "lib" = some "libs/a" ∧
      l.projectRoot? "lib" = some "libs/b" ∧
      ("libs/a", "lib") ∈ l.roots.entries ∧ ("libs/b", "lib") ∈ l.roots.entries ∧
      ¬ ∀ (root : String) (settings : Settings) (g : WorkspaceGraph), g.problems = [] →
        ∀ name, (ofGraph root settings g).projectRoot? name = g.rootOf? name := by
  intro l
  have hproblems : twoLibs.problems = [] := by decide +kernel
  have hgraph : twoLibs.rootOf? "lib" = some "libs/a" := by decide +kernel
  have hlocator : l.projectRoot? "lib" = some "libs/b" := by decide +kernel
  refine ⟨hproblems, hgraph, hlocator, by decide +kernel, by decide +kernel, fun hall => ?_⟩
  have h := hall "/ws" .standard twoLibs hproblems "lib"
  rw [hgraph] at h
  exact absurd (hlocator.symm.trans h) (by decide)

end Locator

end ImportResolution
