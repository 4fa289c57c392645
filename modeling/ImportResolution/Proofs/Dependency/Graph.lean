/-
What a dependency graph holds. Names become places when an edge is added and
places become names when the edges are read, and since the two belong together
one to one, what is read is what was added: adding an edge adds it, its two
ends and nothing else (`mem_edges_addEdge`, `mem_nodes_addEdge`), and the edges
are listed in order without repetition (`pairwise_edges`). So are the nodes that a
node depends on, which are those that some edge joins it to (`mem_dependencies`,
`pairwise_dependencies`).
-/
import ImportResolution.Dependency.Graph
import Mathlib.Data.List.Nodup
import Mathlib.Data.String.Basic

namespace ImportResolution

-- =============================================================== order

namespace Edge

/-- One edge stands before another: by source, then by target, and of two edges
with the same ends the static one before the dynamic one. -/
def Precedes (a b : Edge) : Prop :=
  a.source < b.source ∨ a.source = b.source ∧
    (a.target < b.target ∨ a.target = b.target ∧ a.kind = .static ∧ b.kind = .dynamic)

theorem before_iff {a b : Edge} : a.before b = true ↔ a.Precedes b := by
  have hrank : a.kind.rank < b.kind.rank ↔ a.kind = .static ∧ b.kind = .dynamic := by
    cases a.kind <;> cases b.kind <;> decide
  unfold before Precedes
  split
  · next hsource =>
    rw [hsource]
    split
    · next htarget => simp [htarget, hrank]
    · next htarget => simp [htarget]
  · next hsource => simp [hsource]

theorem not_precedes_self (a : Edge) : ¬ a.Precedes a := by
  rintro (h | ⟨-, h | ⟨-, hstatic, hdynamic⟩⟩)
  · exact lt_irrefl _ h
  · exact lt_irrefl _ h
  · rw [hstatic] at hdynamic
    cases hdynamic

theorem Precedes.trans {a b c : Edge} (hab : a.Precedes b) (hbc : b.Precedes c) :
    a.Precedes c := by
  rcases hab with hab | ⟨hsource, hab⟩
  · rcases hbc with hbc | ⟨hsource, -⟩
    · exact Or.inl (hab.trans hbc)
    · exact Or.inl (hsource ▸ hab)
  · rcases hbc with hbc | ⟨hsource', hbc⟩
    · exact Or.inl (hsource ▸ hbc)
    · refine Or.inr ⟨hsource.trans hsource', ?_⟩
      rcases hab with hab | ⟨htarget, hkind⟩
      · rcases hbc with hbc | ⟨htarget, -⟩
        · exact Or.inl (hab.trans hbc)
        · exact Or.inl (htarget ▸ hab)
      · rcases hbc with hbc | ⟨htarget', hkind'⟩
        · exact Or.inl (htarget ▸ hbc)
        · exact Or.inr ⟨htarget.trans htarget', hkind.1, hkind'.2⟩

instance : Std.Irrefl Precedes :=
  ⟨not_precedes_self⟩

instance : Std.Antisymm Precedes :=
  ⟨fun a _ hab hba => absurd (hab.trans hba) a.not_precedes_self⟩

/-- Of two different edges one stands before the other. -/
theorem precedes_of_not {a b : Edge} (hne : a ≠ b) (h : ¬ a.Precedes b) : b.Precedes a := by
  obtain ⟨source, target, kind⟩ := a
  obtain ⟨source', target', kind'⟩ := b
  simp only [Precedes, not_or, not_and, not_lt] at h hne ⊢
  rcases h.1.lt_or_eq with hsource | rfl
  · exact Or.inl hsource
  · refine Or.inr ⟨rfl, ?_⟩
    rcases (h.2 rfl).1.lt_or_eq with htarget | rfl
    · exact Or.inl htarget
    · cases kind <;> cases kind' <;> simp_all

-- ============================================================== sorting

theorem mem_place {a e : Edge} {edges : List Edge} : a ∈ e.place edges ↔ a = e ∨ a ∈ edges := by
  induction edges with
  | nil => exact List.mem_cons
  | cons f rest ih =>
      unfold place
      split
      · rw [List.mem_cons, ih, List.mem_cons]
        exact or_left_comm
      · exact List.mem_cons

/-- Sorting neither adds nor drops an edge. -/
theorem mem_sort {a : Edge} {edges : List Edge} : a ∈ Edge.sort edges ↔ a ∈ edges := by
  induction edges with
  | nil => rfl
  | cons e rest ih =>
      show a ∈ e.place (Edge.sort rest) ↔ _
      rw [mem_place, ih, List.mem_cons]

/-- An edge that is new among edges in order finds its place among them. -/
theorem pairwise_place {e : Edge} {edges : List Edge} (h : edges.Pairwise Precedes)
    (hnew : e ∉ edges) : (e.place edges).Pairwise Precedes := by
  induction edges with
  | nil => exact List.pairwise_singleton ..
  | cons f rest ih =>
      obtain ⟨hne, hrest⟩ := not_or.mp (mt List.mem_cons.mpr hnew)
      obtain ⟨hfirst, hlater⟩ := List.pairwise_cons.mp h
      unfold place
      split
      · next hbefore =>
        refine List.pairwise_cons.mpr ⟨fun a ha => ?_, ih hlater hrest⟩
        rcases mem_place.mp ha with rfl | ha
        · exact before_iff.mp hbefore
        · exact hfirst a ha
      · next hbefore =>
        have hef : e.Precedes f := precedes_of_not (Ne.symm hne) (mt before_iff.mpr hbefore)
        refine List.pairwise_cons.mpr ⟨fun a ha => ?_, h⟩
        rcases List.mem_cons.mp ha with rfl | ha
        · exact hef
        · exact hef.trans (hfirst a ha)

/-- Different edges come out in strict order. -/
theorem pairwise_sort {edges : List Edge} (h : edges.Nodup) :
    (Edge.sort edges).Pairwise Precedes := by
  induction edges with
  | nil => exact List.Pairwise.nil
  | cons e rest ih =>
      obtain ⟨hnew, hrest⟩ := List.nodup_cons.mp h
      exact pairwise_place (ih hrest) (mt mem_sort.mp hnew)

theorem mem_enter {a e : Edge} {edges : List Edge} : a ∈ e.enter edges ↔ a = e ∨ a ∈ edges := by
  induction edges with
  | nil => exact List.mem_cons
  | cons f rest ih =>
      unfold enter
      split
      · next heq =>
        rw [heq, List.mem_cons]
        exact or_self_left.symm
      · split
        · rw [List.mem_cons, ih, List.mem_cons]
          exact or_left_comm
        · exact List.mem_cons

/-- Collecting edges drops none of them but repetitions. -/
theorem mem_collect {a : Edge} {edges : List Edge} : a ∈ Edge.collect edges ↔ a ∈ edges := by
  induction edges with
  | nil => rfl
  | cons e rest ih =>
      show a ∈ e.enter (Edge.collect rest) ↔ _
      rw [mem_enter, ih, List.mem_cons]

end Edge

namespace DependencyGraph

variable {g : DependencyGraph} {a e : Edge} {name n : String}

-- ================================================================ nodes

theorem contains_iff : g.contains name = true ↔ name ∈ g.nodes := by
  rw [contains, Option.isSome_iff_exists, List.mem_iff_getElem?]
  exact exists_congr fun i => g.lookup_places name i

/-- Each name is a node once. -/
theorem nodup_nodes (g : DependencyGraph) : g.nodes.Nodup := by
  rw [List.nodup_iff_getElem?_ne_getElem?]
  intro i j hij hj hsame
  have hname : g.nodes[j]? = some g.nodes[j] := List.getElem?_eq_getElem hj
  have hi := (g.lookup_places _ i).mpr (hsame.trans hname)
  rw [(g.lookup_places _ j).mpr hname] at hi
  exact absurd (Option.some.inj hi) (by omega)

theorem mem_nodes_addNode : n ∈ (g.addNode name).nodes ↔ n = name ∨ n ∈ g.nodes := by
  rw [← contains_iff, contains_addNode, Bool.or_eq_true, decide_eq_true_eq, contains_iff]

theorem links_addNode (g : DependencyGraph) (name : String) : (g.addNode name).links = g.links := by
  unfold addNode
  split <;> rfl

/-- A name that is added gets a place at which no edge ends; every other name has
the place that it had. -/
theorem lookup_places_addNode {i : Nat} (hi : i < g.nodes.length) :
    (g.addNode name).places.lookup n = some i ↔ g.places.lookup n = some i := by
  unfold addNode
  split
  · rfl
  · next hnew =>
    rw [Table.lookup_put]
    split
    · next hn =>
      rw [hn, hnew]
      exact ⟨fun h => absurd (Option.some.inj h) (by omega), nofun⟩
    · rfl

-- ================================================================ edges

/-- The edges are those whose ends have places that are joined. -/
theorem mem_edges_iff : a ∈ g.edges ↔ ∃ k ∈ g.links, g.places.lookup a.source = some k.source ∧
    g.places.lookup a.target = some k.target ∧ k.kind = a.kind := by
  rw [DependencyGraph.edges, Edge.mem_sort, List.mem_pmap]
  refine exists_congr fun k => ?_
  constructor
  · rintro ⟨hk, rfl⟩
    refine ⟨hk, ?_, ?_, rfl⟩
    · exact (g.lookup_places _ _).mpr (List.getElem?_eq_getElem (g.ends_lt k hk).1)
    · exact (g.lookup_places _ _).mpr (List.getElem?_eq_getElem (g.ends_lt k hk).2)
  · rintro ⟨hk, hsource, htarget, hkind⟩
    obtain ⟨_, hs⟩ := List.getElem?_eq_some_iff.mp ((g.lookup_places _ _).mp hsource)
    obtain ⟨_, ht⟩ := List.getElem?_eq_some_iff.mp ((g.lookup_places _ _).mp htarget)
    refine ⟨hk, ?_⟩
    rw [edgeAt, List.get_eq_getElem, List.get_eq_getElem, hs, ht, hkind]

/-- The edges of a graph stand in strict order, so no edge stands twice. -/
theorem pairwise_edges (g : DependencyGraph) : g.edges.Pairwise Edge.Precedes := by
  refine Edge.pairwise_sort (g.nodup_links.pmap fun j hj k hk hsame => ?_)
  obtain ⟨hsource, htarget, hkind⟩ := Edge.mk.inj hsame
  have hsource := (List.nodup_iff_injective_get.mp g.nodup_nodes) hsource
  have htarget := (List.nodup_iff_injective_get.mp g.nodup_nodes) htarget
  obtain ⟨source, target, kind⟩ := j
  obtain ⟨source', target', kind'⟩ := k
  simp_all

theorem mem_edges_addNode : a ∈ (g.addNode name).edges ↔ a ∈ g.edges := by
  rw [mem_edges_iff, mem_edges_iff, links_addNode]
  refine exists_congr fun k => and_congr_right fun hk => ?_
  rw [lookup_places_addNode (g.ends_lt k hk).1, lookup_places_addNode (g.ends_lt k hk).2]

section Link

variable {k : Link} (hk : k.source < g.nodes.length ∧ k.target < g.nodes.length)

theorem nodes_addLink : (g.addLink k hk).nodes = g.nodes := by
  unfold addLink
  split <;> rfl

theorem mem_edges_addLink : a ∈ (g.addLink k hk).edges ↔ a = g.edgeAt k hk ∨ a ∈ g.edges := by
  unfold addLink
  split
  · next hmem =>
    refine ⟨Or.inr, ?_⟩
    rintro (rfl | ha)
    · exact Edge.mem_sort.mpr (List.mem_pmap.mpr ⟨k, hmem, rfl⟩)
    · exact ha
  · simp only [DependencyGraph.edges, Edge.mem_sort, List.mem_pmap, List.mem_append,
      List.mem_singleton]
    constructor
    · rintro ⟨j, hj | rfl, rfl⟩
      · exact Or.inr ⟨j, hj, rfl⟩
      · exact Or.inl rfl
    · rintro (rfl | ⟨j, hj, rfl⟩)
      · exact ⟨k, Or.inr rfl, rfl⟩
      · exact ⟨j, Or.inl hj, rfl⟩

end Link

/-- At the place of a node stands its name. -/
theorem get_indexOf (h : g.indexOf name < g.nodes.length) (hname : g.contains name = true) :
    g.nodes.get ⟨g.indexOf name, h⟩ = name := by
  obtain ⟨i, hi⟩ := Option.isSome_iff_exists.mp hname
  have hplace : g.indexOf name = i := by rw [indexOf, hi, Option.getD_some]
  obtain ⟨_, hget⟩ := List.getElem?_eq_some_iff.mp ((g.lookup_places name i).mp hi)
  simpa only [List.get_eq_getElem, hplace] using hget

/-- Adding an edge adds this edge and no other. -/
theorem mem_edges_addEdge : a ∈ (g.addEdge e).edges ↔ a = e ∨ a ∈ g.edges := by
  have hsource : ((g.addNode e.source).addNode e.target).contains e.source = true := by
    simp [contains_addNode]
  have htarget : ((g.addNode e.source).addNode e.target).contains e.target = true := by
    simp [contains_addNode]
  rw [addEdge, mem_edges_addLink, mem_edges_addNode, mem_edges_addNode, edgeAt,
    get_indexOf _ hsource, get_indexOf _ htarget]

theorem mem_nodes_addEdge :
    n ∈ (g.addEdge e).nodes ↔ n = e.source ∨ n = e.target ∨ n ∈ g.nodes := by
  simp only [addEdge, nodes_addLink, mem_nodes_addNode]
  exact or_left_comm

-- ============================================================= several

theorem mem_edges_foldl_addEdge {edges : List Edge} :
    a ∈ (edges.foldl addEdge g).edges ↔ a ∈ edges ∨ a ∈ g.edges := by
  induction edges generalizing g with
  | nil => simp
  | cons e rest ih =>
      rw [List.foldl_cons, ih, mem_edges_addEdge, List.mem_cons, or_left_comm, or_assoc]

theorem mem_nodes_foldl_addEdge {edges : List Edge} :
    n ∈ (edges.foldl addEdge g).nodes
      ↔ (∃ e ∈ edges, n = e.source ∨ n = e.target) ∨ n ∈ g.nodes := by
  induction edges generalizing g with
  | nil => simp
  | cons e rest ih =>
      rw [List.foldl_cons, ih, mem_nodes_addEdge, List.exists_mem_cons_iff]
      simp only [or_assoc, or_left_comm]

/-- A graph with further edges has these and its own. -/
theorem mem_edges_addEdges {edges : List Edge} :
    a ∈ (g.addEdges edges).edges ↔ a ∈ edges ∨ a ∈ g.edges := by
  rw [addEdges, mem_edges_foldl_addEdge, Edge.mem_collect]

/-- A graph with further edges has their ends and its own nodes. -/
theorem mem_nodes_addEdges {edges : List Edge} :
    n ∈ (g.addEdges edges).nodes
      ↔ (∃ e ∈ edges, n = e.source ∨ n = e.target) ∨ n ∈ g.nodes := by
  simp only [addEdges, mem_nodes_foldl_addEdge, Edge.mem_collect]

-- ========================================================= dependencies

/-- An edge of either kind leads from one node to another. -/
def Joins (g : DependencyGraph) (source target : String) : Prop :=
  ∃ e ∈ g.edges, e.source = source ∧ e.target = target

variable {i j : g.Place}

theorem nameAt_injective (g : DependencyGraph) : Function.Injective g.nameAt :=
  List.nodup_iff_injective_get.mp g.nodup_nodes

theorem lookup_places_nameAt (i : g.Place) : g.places.lookup (g.nameAt i) = some i.val :=
  (g.lookup_places _ _).mpr (List.getElem?_eq_getElem i.isLt)

/-- An edge joins the names at two places exactly if it joins the places. -/
theorem joins_nameAt_iff :
    g.Joins (g.nameAt i) (g.nameAt j) ↔ ∃ k ∈ g.links, k.source = i ∧ k.target = j := by
  constructor
  · rintro ⟨e, he, hsource, htarget⟩
    obtain ⟨k, hk, hfrom, hto, -⟩ := mem_edges_iff.mp he
    rw [hsource, lookup_places_nameAt] at hfrom
    rw [htarget, lookup_places_nameAt] at hto
    exact ⟨k, hk, (Option.some.inj hfrom).symm, (Option.some.inj hto).symm⟩
  · rintro ⟨k, hk, hfrom, hto⟩
    refine ⟨⟨g.nameAt i, g.nameAt j, k.kind⟩, mem_edges_iff.mpr ⟨k, hk, ?_, ?_, rfl⟩, rfl, rfl⟩
    · rw [hfrom, lookup_places_nameAt]
    · rw [hto, lookup_places_nameAt]

/-- The names that an edge joins are nodes. -/
theorem Joins.exists_nameAt {source target : String} (h : g.Joins source target) :
    (∃ i : g.Place, g.nameAt i = source) ∧ ∃ j : g.Place, g.nameAt j = target := by
  obtain ⟨e, he, rfl, rfl⟩ := h
  obtain ⟨k, -, hfrom, hto, -⟩ := mem_edges_iff.mp he
  have hplace {name : String} {i : Nat} (hi : g.places.lookup name = some i) :
      ∃ i : g.Place, g.nameAt i = name := by
    obtain ⟨hlt, hname⟩ := List.getElem?_eq_some_iff.mp ((g.lookup_places name i).mp hi)
    exact ⟨⟨i, hlt⟩, hname⟩
  exact ⟨hplace hfrom, hplace hto⟩

theorem mem_targetsFrom : j ∈ g.targetsFrom i ↔ g.Joins (g.nameAt i) (g.nameAt j) := by
  rw [joins_nameAt_iff, targetsFrom, List.mem_pmap]
  refine exists_congr fun k => ?_
  constructor
  · rintro ⟨hk, rfl⟩
    obtain ⟨hmem, hfrom⟩ := List.mem_filter.mp hk
    exact ⟨hmem, beq_iff_eq.mp hfrom, rfl⟩
  · rintro ⟨hk, hfrom, hto⟩
    exact ⟨List.mem_filter.mpr ⟨hk, beq_iff_eq.mpr hfrom⟩, Fin.ext hto⟩

theorem mem_enterPlace {k : g.Place} {places : List g.Place} :
    k ∈ g.enterPlace i places ↔ k = i ∨ k ∈ places := by
  induction places with
  | nil => exact List.mem_cons
  | cons j rest ih =>
      unfold enterPlace
      split
      · next heq =>
        rw [heq, List.mem_cons]
        exact or_self_left.symm
      · split
        · rw [List.mem_cons, ih, List.mem_cons]
          exact or_left_comm
        · exact List.mem_cons

/-- A place finds its place among places in the order of their names. -/
theorem pairwise_enterPlace {places : List g.Place}
    (h : places.Pairwise (g.nameAt · < g.nameAt ·)) :
    (g.enterPlace i places).Pairwise (g.nameAt · < g.nameAt ·) := by
  induction places with
  | nil => exact List.pairwise_singleton ..
  | cons j rest ih =>
      obtain ⟨hfirst, hrest⟩ := List.pairwise_cons.mp h
      unfold enterPlace
      split
      · exact h
      · next hne =>
        split
        · next hlt =>
          refine List.pairwise_cons.mpr ⟨fun k hk => ?_, ih hrest⟩
          rcases mem_enterPlace.mp hk with rfl | hk
          · exact hlt
          · exact hfirst k hk
        · next hlt =>
          have hij : g.nameAt i < g.nameAt j :=
            (not_lt.mp hlt).lt_of_ne (g.nameAt_injective.ne hne)
          refine List.pairwise_cons.mpr ⟨fun k hk => ?_, h⟩
          rcases List.mem_cons.mp hk with rfl | hk
          · exact hij
          · exact hij.trans (hfirst k hk)

/-- The successors of a place are those that an edge joins it to. -/
theorem mem_successors : j ∈ g.successors i ↔ g.Joins (g.nameAt i) (g.nameAt j) := by
  have hfoldr (places : List g.Place) : j ∈ places.foldr g.enterPlace [] ↔ j ∈ places := by
    induction places with
    | nil => rfl
    | cons k rest ih => rw [List.foldr_cons, mem_enterPlace, ih, List.mem_cons]
  rw [successors, hfoldr, mem_targetsFrom]

/-- The successors of a place stand in the order of their names, each once. -/
theorem pairwise_successors (i : g.Place) :
    (g.successors i).Pairwise (g.nameAt · < g.nameAt ·) := by
  unfold successors
  induction g.targetsFrom i with
  | nil => exact List.Pairwise.nil
  | cons k rest ih => exact pairwise_enterPlace ih

theorem nameAt_of_placeOf? (h : g.placeOf? name = some i) : g.nameAt i = name := by
  unfold placeOf? at h
  split at h
  · next k hk =>
    cases h
    exact (List.getElem?_eq_some_iff.mp ((g.lookup_places name k).mp hk)).2
  · cases h

theorem placeOf?_nameAt (i : g.Place) : g.placeOf? (g.nameAt i) = some i := by
  have hplace := lookup_places_nameAt i
  unfold placeOf?
  split
  · next k hk =>
    rw [hk] at hplace
    exact congrArg some (Fin.ext (Option.some.inj hplace))
  · next hnone =>
    rw [hnone] at hplace
    cases hplace

/-- What a node depends on is what an edge joins it to. -/
theorem mem_dependencies : n ∈ g.dependencies name ↔ g.Joins name n := by
  unfold dependencies
  split
  · next i hi =>
    rw [← nameAt_of_placeOf? hi, List.mem_map]
    constructor
    · rintro ⟨j, hj, rfl⟩
      exact mem_successors.mp hj
    · intro hjoins
      obtain ⟨-, j, rfl⟩ := hjoins.exists_nameAt
      exact ⟨j, mem_successors.mpr hjoins, rfl⟩
  · next hnone =>
    refine ⟨fun h => absurd h List.not_mem_nil, fun hjoins => ?_⟩
    obtain ⟨⟨i, rfl⟩, -⟩ := hjoins.exists_nameAt
    rw [placeOf?_nameAt] at hnone
    cases hnone

/-- The dependencies of a node stand in order, each once. -/
theorem pairwise_dependencies (g : DependencyGraph) (name : String) :
    (g.dependencies name).Pairwise (· < ·) := by
  unfold dependencies
  split
  · next i _ => exact List.pairwise_map.mpr (pairwise_successors i)
  · exact List.Pairwise.nil

end DependencyGraph

end ImportResolution
