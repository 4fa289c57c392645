/-
Dependency graphs. A node is a name that has been given a place, and an edge
joins two places; names are turned into places when an edge is added, and
places into names when it is read. Each name is a node once, and there is one
edge of each kind between two nodes. Edges are listed in order, so two graphs
with the same edges read the same.
-/
import ImportResolution.Table
import ImportResolution.Workspace.Imports

namespace ImportResolution

/-- An edge between the nodes at two places. -/
structure Link where
  source : Nat
  target : Nat
  kind : EdgeKind
deriving DecidableEq, Repr, Inhabited

/-- Nodes in the order in which they were added, and the edges between them. -/
structure DependencyGraph where
  /-- The names of the nodes, each at its place. -/
  nodes : List String
  /-- The places of the nodes by name. -/
  places : List (String × Nat)
  links : List Link
  /-- Names and places belong together one to one. -/
  lookup_places : ∀ name i, places.lookup name = some i ↔ nodes[i]? = some name
  /-- Both ends of an edge are nodes. -/
  ends_lt : ∀ k ∈ links, k.source < nodes.length ∧ k.target < nodes.length
  /-- No edge is there twice. -/
  nodup_links : links.Nodup
deriving DecidableEq, Repr

namespace DependencyGraph

-- ================================================================ nodes

/-- The graph without nodes. -/
def empty : DependencyGraph where
  nodes := []
  places := []
  links := []
  lookup_places := by simp
  ends_lt := by simp
  nodup_links := List.nodup_nil

instance : Inhabited DependencyGraph := ⟨empty⟩

/-- Whether a name is a node. -/
def contains (g : DependencyGraph) (name : String) : Bool :=
  (g.places.lookup name).isSome

/-- The place of a node, and for a name that is none the place that it would
get. -/
def indexOf (g : DependencyGraph) (name : String) : Nat :=
  (g.places.lookup name).getD g.nodes.length

/-- A name that has no place gets the one after the last. -/
theorem lookup_places_put (g : DependencyGraph) {name : String}
    (h : g.places.lookup name = none) (n : String) (i : Nat) :
    (Table.put name g.nodes.length g.places).lookup n = some i
      ↔ (g.nodes ++ [name])[i]? = some n := by
  have hnew (j : Nat) : g.nodes[j]? ≠ some name := by
    rw [ne_eq, ← g.lookup_places, h]
    exact nofun
  rw [Table.lookup_put, List.getElem?_append]
  by_cases hn : n = name
  · subst hn
    grind
  · rw [if_neg hn, g.lookup_places]
    grind

/-- The graph with a node, unless it is there already. -/
def addNode (g : DependencyGraph) (name : String) : DependencyGraph :=
  match h : g.places.lookup name with
  | some _ => g
  | none => {
    nodes := g.nodes ++ [name]
    places := Table.put name g.nodes.length g.places
    links := g.links
    lookup_places := g.lookup_places_put h
    ends_lt := fun k hk => by
      have hends := g.ends_lt k hk
      rw [List.length_append]
      omega
    nodup_links := g.nodup_links }

theorem indexOf_lt {g : DependencyGraph} {name : String} (h : g.contains name = true) :
    g.indexOf name < g.nodes.length := by
  obtain ⟨i, hi⟩ := Option.isSome_iff_exists.mp h
  rw [indexOf, hi, Option.getD_some]
  exact (List.getElem?_eq_some_iff.mp ((g.lookup_places name i).mp hi)).1

theorem contains_addNode (g : DependencyGraph) (name n : String) :
    (g.addNode name).contains n = (decide (n = name) || g.contains n) := by
  unfold addNode
  split
  · next i h =>
    by_cases hn : n = name
    · simp [contains, hn, h]
    · simp [hn]
  · simp only [contains, Table.lookup_put]
    split <;> simp_all

-- ================================================================ edges

/-- The graph with an edge between two places, unless it is there already. -/
def addLink (g : DependencyGraph) (k : Link)
    (hk : k.source < g.nodes.length ∧ k.target < g.nodes.length) : DependencyGraph :=
  if h : k ∈ g.links then g
  else { g with
    links := g.links ++ [k]
    ends_lt := fun j hj => by
      rcases List.mem_append.mp hj with hj | hj
      · exact g.ends_lt j hj
      · rw [List.mem_singleton.mp hj]
        exact hk
    nodup_links := by
      rw [List.nodup_append]
      refine ⟨g.nodup_links, List.pairwise_singleton .., fun a ha b hb hab => h ?_⟩
      rw [← List.mem_singleton.mp hb, ← hab]
      exact ha }

/-- The graph with an edge and its two ends, unless they are there already. -/
def addEdge (g : DependencyGraph) (e : Edge) : DependencyGraph :=
  let g := (g.addNode e.source).addNode e.target
  have hends : g.indexOf e.source < g.nodes.length ∧ g.indexOf e.target < g.nodes.length :=
    ⟨indexOf_lt (by simp [g, contains_addNode]), indexOf_lt (by simp [g, contains_addNode])⟩
  g.addLink ⟨g.indexOf e.source, g.indexOf e.target, e.kind⟩ hends

/-- The graph with further edges, added in order, each once. -/
def addEdges (g : DependencyGraph) (edges : List Edge) : DependencyGraph :=
  (Edge.collect edges).foldl addEdge g

/-- The graph of some edges. -/
def ofEdges (edges : List Edge) : DependencyGraph :=
  empty.addEdges edges

/-- An edge between two places with the names that stand there. -/
def edgeAt (g : DependencyGraph) (k : Link)
    (hk : k.source < g.nodes.length ∧ k.target < g.nodes.length) : Edge :=
  ⟨g.nodes.get ⟨k.source, hk.1⟩, g.nodes.get ⟨k.target, hk.2⟩, k.kind⟩

/-- The edges in order. -/
def edges (g : DependencyGraph) : List Edge :=
  Edge.sort (g.links.pmap g.edgeAt g.ends_lt)

-- ========================================================= dependencies

/-- The place of a node. -/
abbrev Place (g : DependencyGraph) : Type := Fin g.nodes.length

/-- The name of the node at a place. -/
def nameAt (g : DependencyGraph) (i : g.Place) : String :=
  g.nodes.get i

/-- The place of the node with a name. -/
def placeOf? (g : DependencyGraph) (name : String) : Option g.Place :=
  match h : g.places.lookup name with
  | some i => some ⟨i, (List.getElem?_eq_some_iff.mp ((g.lookup_places name i).mp h)).1⟩
  | none => none

/-- The places to which edges lead from a place, in the order of the edges. -/
def targetsFrom (g : DependencyGraph) (i : g.Place) : List g.Place :=
  (g.links.filter (·.source == i.val)).pmap (fun k hk => ⟨k.target, hk⟩) fun k hk =>
    (g.ends_lt k (List.mem_filter.mp hk).1).2

/-- A place among places in the order of their names, unless it is there already. -/
def enterPlace (g : DependencyGraph) (i : g.Place) : List g.Place → List g.Place
  | [] => [i]
  | j :: rest =>
    if i = j then j :: rest
    else if g.nameAt j < g.nameAt i then j :: enterPlace g i rest
    else i :: j :: rest

/-- The places to which edges lead from a place, in the order of their names, each
once. -/
def successors (g : DependencyGraph) (i : g.Place) : List g.Place :=
  (g.targetsFrom i).foldr g.enterPlace []

/-- The nodes that a node depends on, in order, each once. -/
def dependencies (g : DependencyGraph) (name : String) : List String :=
  match g.placeOf? name with
  | some i => (g.successors i).map g.nameAt
  | none => []

end DependencyGraph

end ImportResolution
