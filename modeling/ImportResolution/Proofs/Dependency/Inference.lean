/-
What is inferred from import records. The records are resolved in their order,
each with the memory that those before it have left (`mem_edgesOf`), and the
graph is that of the projects and of the edges found: nothing is lost on the
way from a record to the list of edges, and nothing is in the list that no
record has led to (`inferGraph_exact`).
-/
import ImportResolution.Proofs.Dependency.Graph
import ImportResolution.Proofs.Dependency.Records

namespace ImportResolution

-- ============================================================= projects

namespace DependencyGraph

variable {g : DependencyGraph} {projects : List Project} {a : Edge} {n : String}

theorem mem_edges_foldl_addNode :
    a ∈ (projects.foldl (fun g p => g.addNode p.name) g).edges ↔ a ∈ g.edges := by
  induction projects generalizing g with
  | nil => rfl
  | cons p rest ih => rw [List.foldl_cons, ih, mem_edges_addNode]

theorem mem_nodes_foldl_addNode :
    n ∈ (projects.foldl (fun g p => g.addNode p.name) g).nodes
      ↔ (∃ p ∈ projects, p.name = n) ∨ n ∈ g.nodes := by
  induction projects generalizing g with
  | nil => simp
  | cons p rest ih =>
      rw [List.foldl_cons, ih, mem_nodes_addNode, List.exists_mem_cons_iff, or_left_comm,
        or_assoc, eq_comm]

end DependencyGraph

namespace Locator

open DependencyGraph (mem_edges_addEdges mem_nodes_addEdges mem_edges_foldl_addNode
  mem_nodes_foldl_addNode)

variable {l : Locator} {r : ImportRecord} {records : List ImportRecord} {edges : List Edge}
  {e : Edge} {name : String}

/-- The edges of the graph are those that it was built from. -/
theorem mem_edges_graphOf : e ∈ (l.graphOf edges).edges ↔ e ∈ edges := by
  have hempty : e ∉ DependencyGraph.empty.edges := List.not_mem_nil
  rw [graphOf, mem_edges_addEdges, mem_edges_foldl_addNode, or_iff_left hempty]

/-- The nodes of the graph are the projects and the ends of the edges. -/
theorem mem_nodes_graphOf :
    name ∈ (l.graphOf edges).nodes
      ↔ (∃ e ∈ edges, name = e.source ∨ name = e.target) ∨ ∃ p ∈ l.projects, p.name = name := by
  have hempty : name ∉ DependencyGraph.empty.nodes := List.not_mem_nil
  rw [graphOf, mem_nodes_addEdges, mem_nodes_foldl_addNode, or_iff_left hempty]

/-- A project is known if its name is that of a declared one. -/
theorem exists_projectRoot?_iff :
    (∃ root, l.projectRoot? name = some root) ↔ ∃ p ∈ l.projects, p.name = name := by
  rw [← Option.isSome_iff_exists, projectRoot?, Option.isSome_map, List.find?_isSome]
  simp only [List.mem_reverse, beq_iff_eq]

-- ============================================================== records

/-- The memory that some records leave when they have been resolved in their
order. -/
def memoryAfter (l : Locator) (records : List ImportRecord) (m : Memory) : Memory :=
  (l.resolveAll (l.callsOf records) m).2

theorem memoryAfter_cons (l : Locator) (r : ImportRecord) (records : List ImportRecord)
    (m : Memory) :
    l.memoryAfter (r :: records) m = l.memoryAfter records (l.edgeOf? r m).2 := by
  rw [edgeOf?_run, memoryAfter]
  cases hc : l.callOf? r with
  | none => rw [callsOf, List.filterMap_cons_none hc]; rfl
  | some c => rw [callsOf, List.filterMap_cons_some hc]; rfl

/-- A record leads to an edge to the node that its specifier is resolved to, with
the root of its project as context. -/
theorem edgeOf?_eq_some_iff {m : Memory} :
    (l.edgeOf? r m).1 = some e
      ↔ ∃ root, l.projectRoot? r.source = some root ∧
        (l.resolve r.specifier root r.file m).1.result = some e.target ∧
        r.source = e.source ∧ r.kind = e.kind ∧ e.target ≠ e.source := by
  rw [edgeOf?_run, callOf?]
  cases hroot : l.projectRoot? r.source with
  | none => simp
  | some root =>
      simp only [Option.map_some, edgeTo_eq_some_iff, Option.some.injEq, exists_eq_left']
      rfl

/-- The edges of records are those of the single ones, each resolved after those
before it. -/
theorem mem_edgesOf {m : Memory} :
    e ∈ (l.edgesOf records m).1
      ↔ ∃ before r after, records = before ++ r :: after ∧
        (l.edgeOf? r (l.memoryAfter before m)).1 = some e := by
  induction records generalizing m with
  | nil => simp [edgesOf]
  | cons q rest ih =>
      rw [edgesOf_cons, List.mem_append, Option.mem_toList, ih]
      constructor
      · rintro (hq | ⟨before, r, after, rfl, hr⟩)
        · exact ⟨[], q, rest, rfl, hq⟩
        · refine ⟨q :: before, r, after, rfl, ?_⟩
          rw [memoryAfter_cons]
          exact hr
      · rintro ⟨before, r, after, hsplit, hr⟩
        cases before with
        | nil =>
            obtain ⟨rfl, rfl⟩ := List.cons.inj hsplit
            exact Or.inl hr
        | cons b before =>
            obtain ⟨rfl, rfl⟩ := List.cons.inj hsplit
            rw [memoryAfter_cons] at hr
            exact Or.inr ⟨before, r, after, rfl, hr⟩

-- ================================================================ graph

/-- The edges that are inferred stand in strict order, each once, and they are
exactly those of the records: a record of a known project has the edge to the
node that it is resolved to in its turn, unless this is its own project. The
nodes are the projects and the targets of the edges, each once. -/
theorem inferGraph_exact (l : Locator) (records : List ImportRecord) (m : Memory) :
    let g := (l.inferGraph records m).1
    g.edges.Pairwise Edge.Precedes ∧ g.edges.Nodup ∧
    (∀ e, e ∈ g.edges ↔ ∃ before r after root, records = before ++ r :: after ∧
      (∃ p ∈ l.projects, p.name = r.source) ∧ l.projectRoot? r.source = some root ∧
      (l.resolve r.specifier root r.file (l.memoryAfter before m)).1.result = some e.target ∧
      e.source = r.source ∧ e.kind = r.kind ∧ e.target ≠ r.source) ∧
    g.nodes.Nodup ∧
    ∀ name, name ∈ g.nodes
      ↔ (∃ p ∈ l.projects, p.name = name) ∨ ∃ e ∈ g.edges, e.target = name := by
  intro g
  have hrun : g = l.graphOf (l.edgesOf records m).1 := rfl
  have hsorted : g.edges.Pairwise Edge.Precedes := g.pairwise_edges
  have hedges (e : Edge) : e ∈ g.edges ↔ e ∈ (l.edgesOf records m).1 := by
    rw [hrun, mem_edges_graphOf]
  refine ⟨hsorted, ?_, fun e => ?_, g.nodup_nodes, fun name => ?_⟩
  · refine hsorted.imp fun hprecedes hsame => ?_
    rw [hsame] at hprecedes
    exact Edge.not_precedes_self _ hprecedes
  · rw [hedges, mem_edgesOf]
    refine exists_congr fun before => exists_congr fun r => exists_congr fun after => ?_
    rw [edgeOf?_eq_some_iff, ← exists_and_left]
    refine exists_congr fun root => and_congr_right fun _ => ?_
    constructor
    · rintro ⟨hroot, hresult, hsource, hkind, hne⟩
      refine ⟨exists_projectRoot?_iff.mp ⟨root, hroot⟩, hroot, hresult, hsource.symm,
        hkind.symm, ?_⟩
      rw [hsource]
      exact hne
    · rintro ⟨-, hroot, hresult, hsource, hkind, hne⟩
      refine ⟨hroot, hresult, hsource.symm, hkind.symm, ?_⟩
      rw [hsource]
      exact hne
  · rw [hrun, mem_nodes_graphOf, ← hrun]
    simp only [← hedges]
    constructor
    · rintro (⟨e, he, rfl | rfl⟩ | hproject)
      · -- the source of an edge is the project of a record
        obtain ⟨before, r, after, -, hr⟩ := mem_edgesOf.mp ((hedges e).mp he)
        obtain ⟨root, hroot, -, hsource, -⟩ := edgeOf?_eq_some_iff.mp hr
        rw [← hsource]
        exact Or.inl (exists_projectRoot?_iff.mp ⟨root, hroot⟩)
      · exact Or.inr ⟨e, he, rfl⟩
      · exact Or.inl hproject
    · rintro (hproject | ⟨e, he, rfl⟩)
      · exact Or.inr hproject
      · exact Or.inl ⟨e, he, Or.inr rfl⟩

end Locator

end ImportResolution
