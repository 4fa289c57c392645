/-
Graphs that come to be by changes, one node or one edge added after another to the
graph without nodes. What a graph answers is settled by which changes were made. Where a
name stands, and in which order the links are listed, does depend on the order of the
changes; but the edges and the dependencies are put in order when they are read, and the
cycle that is told was already seen to depend on the edges alone
(`cycleAmong?_congr`). So changes made in another order, or made twice, are not noticed
(`after_exact`).
-/
import ImportResolution.Proofs.Dependency.Cycle
import Mathlib.Data.List.Sort

namespace ImportResolution.DependencyGraph

open Places (IsStrong)

/-- One thing added to a graph. -/
inductive Change where
  | node (name : String)
  | edge (e : Edge)
deriving DecidableEq, Repr

namespace Change

/-- The graph with what is added. -/
def apply (g : DependencyGraph) : Change → DependencyGraph
  | node name => g.addNode name
  | edge e => g.addEdge e

/-- Whether what is added speaks of a node. -/
def Names (name : String) : Change → Prop
  | node n => name = n
  | edge e => name = e.source ∨ name = e.target

end Change

/-- The graph after some changes to the one without nodes. -/
def after (changes : List Change) : DependencyGraph :=
  changes.foldl Change.apply empty

variable {g : DependencyGraph} {changes changes' : List Change} {a : Edge} {n : String}

theorem mem_edges_apply {c : Change} : a ∈ (c.apply g).edges ↔ c = .edge a ∨ a ∈ g.edges := by
  cases c with
  | node name => exact mem_edges_addNode.trans (or_iff_right nofun).symm
  | edge e => rw [Change.apply, mem_edges_addEdge, Change.edge.injEq, eq_comm]

theorem mem_nodes_apply {c : Change} : n ∈ (c.apply g).nodes ↔ c.Names n ∨ n ∈ g.nodes := by
  cases c with
  | node name => exact mem_nodes_addNode
  | edge e => exact mem_nodes_addEdge.trans or_assoc.symm

/-- The edges are those that were added. -/
theorem mem_edges_after : a ∈ (after changes).edges ↔ .edge a ∈ changes := by
  suffices hfold : ∀ g : DependencyGraph,
      a ∈ (changes.foldl Change.apply g).edges ↔ .edge a ∈ changes ∨ a ∈ g.edges from
    (hfold empty).trans (or_iff_left List.not_mem_nil)
  induction changes with
  | nil => simp
  | cons c rest ih =>
      intro g
      rw [List.foldl_cons, ih, mem_edges_apply, List.mem_cons, eq_comm, or_left_comm, or_assoc]

/-- The nodes are those of which some change speaks. -/
theorem mem_nodes_after : n ∈ (after changes).nodes ↔ ∃ c ∈ changes, c.Names n := by
  suffices hfold : ∀ g : DependencyGraph,
      n ∈ (changes.foldl Change.apply g).nodes ↔ (∃ c ∈ changes, c.Names n) ∨ n ∈ g.nodes from
    (hfold empty).trans (or_iff_left List.not_mem_nil)
  induction changes with
  | nil => simp
  | cons c rest ih =>
      intro g
      rw [List.foldl_cons, ih, mem_nodes_apply, List.exists_mem_cons_iff, or_left_comm, or_assoc]

theorem joins_after {source target : String} : (after changes).Joins source target
    ↔ ∃ e, .edge e ∈ changes ∧ e.source = source ∧ e.target = target :=
  exists_congr fun _ => and_congr_left fun _ => mem_edges_after

-- =============================================================== order

/-- Some changes add the same edges as others, and speak of the same nodes. -/
structure SameAdditions (changes changes' : List Change) : Prop where
  edges : ∀ e, .edge e ∈ changes ↔ .edge e ∈ changes'
  names : ∀ name, (∃ c ∈ changes, c.Names name) ↔ ∃ c ∈ changes', c.Names name

section

variable (h : SameAdditions changes changes')
include h

theorem edges_after_congr : (after changes).edges = (after changes').edges :=
  (pairwise_edges _).eq_of_mem_iff (pairwise_edges _) fun e => by
    rw [mem_edges_after, mem_edges_after, h.edges]

theorem length_nodes_after_congr :
    (after changes).nodes.length = (after changes').nodes.length := by
  refine ((List.perm_ext_iff_of_nodup (nodup_nodes _) (nodup_nodes _)).mpr fun name => ?_).length_eq
  rw [mem_nodes_after, mem_nodes_after, h.names]

theorem joins_after_congr : (after changes).Joins = (after changes').Joins := by
  funext source target
  rw [Joins, Joins, edges_after_congr h]

theorem dependencies_after_congr (name : String) :
    (after changes).dependencies name = (after changes').dependencies name :=
  (pairwise_dependencies _ name).eq_of_mem_iff (pairwise_dependencies _ name) fun n => by
    rw [mem_dependencies, mem_dependencies, joins_after_congr h]

end

/-- After any changes names and places belong together one to one, the nodes are the
names of which a change speaks, no two edges of one kind have the same ends, the edges
are the added ones in strict order, and so are the dependencies of a node as the targets
of its edges. After changes that add the same in another order the edges, the number of
nodes, the dependencies and the cycle that is told are the same, in whichever order the
components are listed. -/
theorem after_exact (changes : List Change) :
    let g := after changes
    (∀ name i, g.places.lookup name = some i ↔ g.nodes[i]? = some name) ∧
    (∀ name, g.contains name = true ↔ ∃ c ∈ changes, c.Names name) ∧
    g.links.Nodup ∧
    g.edges.Pairwise Edge.Precedes ∧ (∀ e, e ∈ g.edges ↔ .edge e ∈ changes) ∧
    (∀ name, (g.dependencies name).Pairwise (· < ·) ∧ ∀ n, n ∈ g.dependencies name
      ↔ ∃ e, .edge e ∈ changes ∧ e.source = name ∧ e.target = n) ∧
    ∀ changes', SameAdditions changes' changes →
      (after changes').edges = g.edges ∧ (after changes').nodes.length = g.nodes.length ∧
      (∀ name, (after changes').dependencies name = g.dependencies name) ∧
      (after changes').cycle? = g.cycle? ∧
      ∀ components, IsStrong (after changes').successors components →
        (after changes').cycleAmong? components = g.cycle? := by
  intro g
  refine ⟨g.lookup_places, fun name => contains_iff.trans mem_nodes_after, g.nodup_links,
    g.pairwise_edges, fun e => mem_edges_after, fun name => ⟨g.pairwise_dependencies name,
      fun n => mem_dependencies.trans joins_after⟩, fun changes' h => ?_⟩
  have hcycle (components) (hc : IsStrong (after changes').successors components) :
      (after changes').cycleAmong? components = g.cycle? :=
    cycleAmong?_congr hc (Places.isStrong_components _) (joins_after_congr h)
  exact ⟨edges_after_congr h, length_nodes_after_congr h, dependencies_after_congr h,
    hcycle _ (Places.isStrong_components _), hcycle⟩

/-- The same is added in two orders, and the names get different places. -/
theorem after_two_orders :
    let forth : Change := .edge ⟨"a", "b", .static⟩
    let back : Change := .edge ⟨"b", "a", .dynamic⟩
    (after [forth, back, .node "c"]).nodes = ["a", "b", "c"] ∧
      (after [.node "c", back, forth]).nodes = ["c", "b", "a"] ∧
      (after [.node "c", back, forth]).edges = (after [forth, back, .node "c"]).edges ∧
      (after [.node "c", back, forth]).cycle? = (after [forth, back, .node "c"]).cycle? := by
  intro forth back
  have hmem (c : Change) : c ∈ [.node "c", back, forth] ↔ c ∈ [forth, back, .node "c"] := by
    rw [← List.mem_reverse]
    rfl
  have hsame : SameAdditions [.node "c", back, forth] [forth, back, .node "c"] :=
    ⟨fun e => hmem (.edge e), fun name => exists_congr fun c => and_congr_left fun _ => hmem c⟩
  obtain ⟨-, -, -, -, -, -, hall⟩ := after_exact [forth, back, .node "c"]
  obtain ⟨hedges, -, -, hcycle, -⟩ := hall _ hsame
  exact ⟨by decide +kernel, by decide +kernel, hedges, hcycle⟩

end ImportResolution.DependencyGraph
