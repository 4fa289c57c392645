/-
The cycle that is told of a graph. Whether there is one, and which, is a question about
the names that its edges join and about nothing else (`cycleAmong?_eq_some_iff`): it
goes through the first name that leads to another one and back, and from there it is
the first of all ways back, as the search finds it. In which order the components are
listed does not matter, since the names differ.

Where no edge leads from a node to itself, as in every inferred graph, a name is on a
cycle exactly if it leads to another one and back, and so there is a cycle to tell
unless there is none at all (`cycle?_exact`).
-/
import ImportResolution.Dependency.Cycle
import ImportResolution.Proofs.Dependency.BreadthFirst
import ImportResolution.Proofs.Dependency.Components
import ImportResolution.Proofs.Dependency.Inference
import Mathlib

namespace ImportResolution

open Places (Walk IsStrong Mutual FirstReturn)
open Relation (ReflTransGen TransGen)

-- ================================================================ walks

namespace Places.Walk

variable {α : Type} {R : α → α → Prop} {a b : α} {l : List α}

/-- A walk is a list from its start to its end whose neighbours are joined. -/
theorem walk_iff : Walk R a l b ↔ l.head? = some a ∧ l.getLast? = some b ∧ l.IsChain R := by
  constructor
  · intro h
    induction h with
    | start => exact ⟨rfl, rfl, List.isChain_singleton _⟩
    | step h hstep ih =>
        obtain ⟨hhead, hlast, hchain⟩ := ih
        refine ⟨by rw [List.head?_append, hhead, Option.some_or], by simp,
          List.isChain_append.mpr ⟨hchain, List.isChain_singleton _, ?_⟩⟩
        rintro c hc d hd
        cases hlast.symm.trans hc
        cases hd
        exact hstep
  · rintro ⟨hhead, hlast, hchain⟩
    induction l using List.reverseRecOn generalizing b with
    | nil => cases hhead
    | append_singleton l c ih =>
        cases List.getLast?_concat.symm.trans hlast
        obtain ⟨hchain, -, hjoined⟩ := List.isChain_append.mp hchain
        cases hl : l.getLast? with
        | none =>
            rw [List.getLast?_eq_none_iff.mp hl] at hhead ⊢
            cases hhead
            exact Walk.start
        | some d =>
            rw [List.head?_append_of_ne_nil _ (by rintro rfl; cases hl)] at hhead
            exact (ih hhead hl hchain).step (hjoined d hl _ rfl)

/-- A walk that returns is a list from its start that is joined to the start again. -/
theorem returns_iff : Walk.Returns R a l ↔ l.head? = some a ∧ (l ++ [a]).IsChain R := by
  rw [List.isChain_append]
  constructor
  · rintro ⟨b, hwalk, hstep⟩
    obtain ⟨hhead, hlast, hchain⟩ := walk_iff.mp hwalk
    refine ⟨hhead, hchain, List.isChain_singleton _, fun c hc d hd => ?_⟩
    cases hlast.symm.trans hc
    cases hd
    exact hstep
  · rintro ⟨hhead, hchain, -, hjoined⟩
    cases hl : l.getLast? with
    | none =>
        rw [List.getLast?_eq_none_iff.mp hl] at hhead
        cases hhead
    | some b => exact ⟨b, walk_iff.mpr ⟨hhead, hl, hchain⟩, hjoined b hl a rfl⟩

/-- What leads to itself is where some walk returns. -/
theorem exists_returns (h : TransGen R a a) : ∃ l, Walk.Returns R a l := by
  obtain ⟨b, hab, hstep⟩ := TransGen.tail'_iff.mp h
  suffices hwalk : ∃ l, Walk R a l b from hwalk.imp fun l hl => ⟨b, hl, hstep⟩
  clear hstep
  induction hab with
  | refl => exact ⟨[a], Walk.start⟩
  | tail _ hstep ih =>
      obtain ⟨l, hl⟩ := ih
      exact ⟨_, hl.step hstep⟩

end Places.Walk

-- =============================================================== cycles

/-- A name leads to another name and back. -/
def Circular (R : String → String → Prop) (a : String) : Prop :=
  ∃ b ≠ a, ReflTransGen R a b ∧ ReflTransGen R b a

/-- What is told as a cycle, up to its last name: the way from the first name that leads
to another one and back, shorter than all others from there to itself or first in the
order of their names. -/
structure FirstCycle (R : String → String → Prop) (start : String) (names : List String) :
    Prop where
  least : IsLeast {a | Circular R a} start
  returns : Walk.Returns R start names
  nodup : names.Nodup
  first : ∀ others, Walk.Returns R start others →
    names.length < others.length ∨ names.length = others.length ∧ names ≤ others

section

variable {R : String → String → Prop} {a start : String}

theorem Circular.transGen (h : Circular R a) : TransGen R a a := by
  obtain ⟨b, hne, hab, hba⟩ := h
  rcases Relation.reflTransGen_iff_eq_or_transGen.mp hab with heq | hab
  · exact absurd heq hne
  · exact hab.trans_left hba

/-- If no name is joined to itself, a name leads to another one and back exactly if it
leads to itself. -/
theorem circular_iff (hR : ∀ a, ¬ R a a) : Circular R a ↔ TransGen R a a := by
  refine ⟨Circular.transGen, fun h => ?_⟩
  obtain ⟨b, hab, hba⟩ := TransGen.head'_iff.mp h
  exact ⟨b, fun heq => hR a (heq ▸ hab), ReflTransGen.single hab, hba⟩

/-- There is only one first cycle. -/
theorem FirstCycle.unique {names start' names'} (h : FirstCycle R start names)
    (h' : FirstCycle R start' names') : start = start' ∧ names = names' := by
  obtain rfl : start = start' := h.least.unique h'.least
  refine ⟨rfl, ?_⟩
  rcases h.first names' h'.returns with hlt | ⟨hlength, hle⟩
  · rcases h'.first names h.returns with hlt' | ⟨hlength, -⟩ <;> omega
  · rcases h'.first names h.returns with hlt | ⟨-, hle'⟩
    · omega
    · exact le_antisymm hle hle'

end

namespace DependencyGraph

variable {g : DependencyGraph} {i j : g.Place} {components : List (List g.Place)}

/-- A walk over places is one over their names. -/
theorem walk_names {l : List g.Place} (h : Walk (fun i j => j ∈ g.successors i) i l j) :
    Walk g.Joins (g.nameAt i) (l.map g.nameAt) (g.nameAt j) := by
  induction h with
  | start => exact Walk.start
  | step _ hstep ih =>
      rw [List.map_append]
      exact ih.step (mem_successors.mp hstep)

/-- A walk over names is one over the places where they stand. -/
theorem walk_places {names : List String} {name : String}
    (h : Walk g.Joins (g.nameAt i) names name) : ∃ l j, l.map g.nameAt = names ∧
      g.nameAt j = name ∧ Walk (fun i j => j ∈ g.successors i) i l j := by
  induction h with
  | start => exact ⟨[i], i, rfl, rfl, Walk.start⟩
  | step _ hstep ih =>
      obtain ⟨l, k, rfl, rfl, hwalk⟩ := ih
      obtain ⟨-, j, rfl⟩ := hstep.exists_nameAt
      exact ⟨l ++ [j], j, List.map_append, rfl, hwalk.step (mem_successors.mpr hstep)⟩

theorem returns_names {l : List g.Place} :
    Walk.Returns (fun i j => j ∈ g.successors i) i l
      → Walk.Returns g.Joins (g.nameAt i) (l.map g.nameAt)
  | ⟨_, hwalk, hstep⟩ => ⟨_, walk_names hwalk, mem_successors.mp hstep⟩

theorem returns_places {names : List String} (h : Walk.Returns g.Joins (g.nameAt i) names) :
    ∃ l, l.map g.nameAt = names ∧ Walk.Returns (fun i j => j ∈ g.successors i) i l := by
  obtain ⟨name, hwalk, hstep⟩ := h
  obtain ⟨l, j, rfl, rfl, hplaces⟩ := walk_places hwalk
  exact ⟨l, rfl, j, hplaces, mem_successors.mpr hstep⟩

/-- A place leads to another one exactly if the names do. -/
theorem leadsTo_iff :
    Places.LeadsTo g.successors i j ↔ ReflTransGen g.Joins (g.nameAt i) (g.nameAt j) := by
  refine ⟨ReflTransGen.lift g.nameAt (fun _ _ => mem_successors.mp) i j, fun h => ?_⟩
  generalize hname : g.nameAt j = name at h
  induction h generalizing j with
  | refl =>
      rw [g.nameAt_injective hname]
      exact ReflTransGen.refl
  | tail _ hstep ih =>
      obtain ⟨k, rfl⟩ := hstep.exists_nameAt.1
      rw [← hname] at hstep
      exact (ih rfl).tail (mem_successors.mpr hstep)

/-- The name at a place leads to another one and back exactly if the place does. -/
theorem circular_nameAt_iff :
    Circular g.Joins (g.nameAt i) ↔ ∃ j ≠ i, Mutual g.successors i j := by
  constructor
  · rintro ⟨name, hne, hto, hback⟩
    rcases ReflTransGen.cases_tail hto with heq | ⟨before, -, hstep⟩
    · exact absurd heq hne
    · obtain ⟨j, rfl⟩ := hstep.exists_nameAt.2
      exact ⟨j, fun heq => hne (congrArg _ heq), leadsTo_iff.mpr hto, leadsTo_iff.mpr hback⟩
  · rintro ⟨j, hne, hto, hback⟩
    exact ⟨g.nameAt j, g.nameAt_injective.ne hne, leadsTo_iff.mp hto, leadsTo_iff.mp hback⟩

/-- The first way back over places is the first one over their names. -/
theorem firstCycle_of_firstReturn {start : g.Place} {l : List g.Place}
    (hleast : IsLeast {a | Circular g.Joins a} (g.nameAt start))
    (h : FirstReturn g.nameAt g.successors start l) :
    FirstCycle g.Joins (g.nameAt start) (l.map g.nameAt) where
  least := hleast
  returns := returns_names h.returns
  nodup := h.nodup.map g.nameAt_injective
  first others hothers := by
    obtain ⟨l', rfl, hl'⟩ := returns_places hothers
    rw [List.length_map, List.length_map]
    exact Prod.Lex.toLex_le_toLex.mp (h.first l' hl')

/-- The name from which a cycle is told is the first that leads to another one and
back. -/
theorem isLeast_minOn? (hc : IsStrong g.successors components) :
    match (components.filter (1 < ·.length)).flatten.minOn? g.nameAt with
    | some start => IsLeast {a | Circular g.Joins a} (g.nameAt start)
    | none => ∀ a, ¬ Circular g.Joins a := by
  have hmem {i : g.Place} :
      i ∈ (components.filter (1 < ·.length)).flatten ↔ Circular g.Joins (g.nameAt i) :=
    hc.mem_larger_iff.trans circular_nameAt_iff.symm
  have hplace {a : String} (ha : Circular g.Joins a) :
      ∃ i, g.nameAt i = a ∧ i ∈ (components.filter (1 < ·.length)).flatten := by
    obtain ⟨b, hjoins, -⟩ := TransGen.head'_iff.mp ha.transGen
    obtain ⟨i, rfl⟩ := hjoins.exists_nameAt.1
    exact ⟨i, rfl, hmem.mpr ha⟩
  generalize (components.filter (1 < ·.length)).flatten = places at hmem hplace
  cases hmin : places.minOn? g.nameAt with
  | none =>
      intro a ha
      obtain ⟨i, -, hi⟩ := hplace ha
      have hsome := List.isSome_minOn?_of_mem (f := g.nameAt) hi
      rw [hmin] at hsome
      cases hsome
  | some start =>
      refine ⟨hmem.mp (List.minOn?_mem hmin), fun a ha => ?_⟩
      obtain ⟨i, rfl, hi⟩ := hplace ha
      have hle := List.apply_get_minOn?_le_of_mem (f := g.nameAt) hi
      simpa only [hmin, Option.get_some] using hle

/-- What is told is the first cycle, and if nothing is told then no name leads to another
one and back. -/
theorem cycleAmong?_spec (hc : IsStrong g.successors components) :
    match g.cycleAmong? components with
    | some cycle => ∃ start names, cycle = names ++ [start] ∧ FirstCycle g.Joins start names
    | none => ∀ a, ¬ Circular g.Joins a := by
  have hleast := isLeast_minOn? hc
  unfold cycleAmong?
  cases hstart : (components.filter (1 < ·.length)).flatten.minOn? g.nameAt with
  | none =>
      rw [hstart] at hleast
      exact hleast
  | some start =>
      rw [hstart] at hleast
      have hway := Places.wayBack?_spec pairwise_successors start
      simp only [Option.bind_eq_bind, Option.bind_some]
      cases hback : Places.wayBack? g.successors start with
      | none =>
          rw [hback] at hway
          obtain ⟨names, hnames⟩ := Walk.exists_returns hleast.1.transGen
          obtain ⟨l, -, hl⟩ := returns_places hnames
          exact absurd hl (hway l)
      | some way =>
          rw [hback] at hway
          obtain ⟨l, rfl, hfirst⟩ := hway
          exact ⟨_, _, List.map_append, firstCycle_of_firstReturn hleast hfirst⟩

theorem cycleAmong?_eq_some_iff (hc : IsStrong g.successors components) {cycle : List String} :
    g.cycleAmong? components = some cycle
      ↔ ∃ start names, cycle = names ++ [start] ∧ FirstCycle g.Joins start names := by
  have hspec := cycleAmong?_spec hc
  cases hcycle : g.cycleAmong? components with
  | none =>
      rw [hcycle] at hspec
      refine ⟨nofun, fun ⟨start, names, _, h⟩ => absurd h.least.1 (hspec start)⟩
  | some told =>
      rw [hcycle] at hspec
      obtain ⟨start, names, rfl, h⟩ := hspec
      rw [Option.some.injEq]
      constructor
      · rintro rfl
        exact ⟨start, names, rfl, h⟩
      · rintro ⟨start', names', rfl, h'⟩
        obtain ⟨rfl, rfl⟩ := h.unique h'
        rfl

theorem cycleAmong?_eq_none_iff (hc : IsStrong g.successors components) :
    g.cycleAmong? components = none ↔ ∀ a, ¬ Circular g.Joins a := by
  have hspec := cycleAmong?_spec hc
  constructor
  · intro hnone
    rw [hnone] at hspec
    exact hspec
  · intro hfree
    cases hcycle : g.cycleAmong? components with
    | none => rfl
    | some cycle =>
        obtain ⟨start, names, -, h⟩ := (cycleAmong?_eq_some_iff hc).mp hcycle
        exact absurd h.least.1 (hfree start)

/-- Which cycle is told depends on nothing but the names that edges join. -/
theorem cycleAmong?_congr {g' : DependencyGraph} {components' : List (List g'.Place)}
    (hc : IsStrong g.successors components) (hc' : IsStrong g'.successors components')
    (hjoins : g.Joins = g'.Joins) : g.cycleAmong? components = g'.cycleAmong? components' :=
  Option.ext fun cycle => by rw [cycleAmong?_eq_some_iff hc, cycleAmong?_eq_some_iff hc', hjoins]

-- ===================================================== without loops

/-- No edge leads from a node to itself. -/
def NoLoops (g : DependencyGraph) : Prop :=
  ∀ e ∈ g.edges, e.source ≠ e.target

/-- An inferred graph has no loops. -/
theorem noLoops_inferGraph (l : Locator) (records : List ImportRecord) (m : Locator.Memory) :
    (l.inferGraph records m).1.NoLoops := by
  intro e he
  obtain ⟨before, r, after, -, hr⟩ := Locator.mem_edgesOf.mp (Locator.mem_edges_graphOf.mp he)
  obtain ⟨root, -, -, -, -, hne⟩ := Locator.edgeOf?_eq_some_iff.mp hr
  exact hne.symm

theorem NoLoops.circular_iff (h : g.NoLoops) {a : String} :
    Circular g.Joins a ↔ TransGen g.Joins a a :=
  ImportResolution.circular_iff fun _ ⟨e, he, hsource, htarget⟩ =>
    h e he (hsource.trans htarget.symm)

/-- An inferred graph has no loops, and for every graph without loops, whatever the
order of its components: no cycle is told exactly if no node leads to itself, and a
cycle that is told starts and ends with the first node that leads to itself, goes along
edges, comes by no node twice in between, and is a shortest one from there, of all these
the first in the order of the names. -/
theorem cycle?_exact :
    (∀ (l : Locator) (records : List ImportRecord) (m : Locator.Memory),
      (l.inferGraph records m).1.NoLoops) ∧
    ∀ g : DependencyGraph, g.NoLoops →
      (∀ components, IsStrong g.successors components →
        g.cycleAmong? components = g.cycle?) ∧
      (g.cycle? = none ↔ ∀ a, ¬ TransGen g.Joins a a) ∧
      ∀ cycle, g.cycle? = some cycle → ∃ start inner, cycle = start :: inner ++ [start] ∧
        IsLeast {a | TransGen g.Joins a a} start ∧
        cycle.IsChain g.Joins ∧ (start :: inner).Nodup ∧
        ∀ others, (start :: others ++ [start]).IsChain g.Joins →
          inner.length < others.length ∨ inner.length = others.length ∧ inner ≤ others := by
  refine ⟨noLoops_inferGraph, fun g hloops => ?_⟩
  have hstrong : IsStrong g.successors (Places.components g.successors) :=
    Places.isStrong_components g.successors
  have hcircular : {a | Circular g.Joins a} = {a | TransGen g.Joins a a} :=
    Set.ext fun a => hloops.circular_iff
  refine ⟨fun components hc => cycleAmong?_congr hc hstrong rfl, ?_, fun cycle hcycle => ?_⟩
  · rw [cycle?, cycleAmong?_eq_none_iff hstrong]
    exact forall_congr' fun a => not_congr hloops.circular_iff
  · obtain ⟨start, names, rfl, h⟩ := (cycleAmong?_eq_some_iff hstrong).mp hcycle
    obtain ⟨hhead, hchain⟩ := Walk.returns_iff.mp h.returns
    obtain ⟨inner, rfl⟩ := List.head?_eq_some_iff.mp hhead
    refine ⟨start, inner, rfl, hcircular ▸ h.least, hchain, h.nodup, fun others hothers => ?_⟩
    have hfirst := h.first (start :: others) (Walk.returns_iff.mpr ⟨rfl, hothers⟩)
    rw [List.length_cons, List.length_cons, Nat.add_lt_add_iff_right,
      Nat.add_right_cancel_iff] at hfirst
    refine hfirst.imp_right (And.imp_right fun hle => not_lt.mp fun hlt => ?_)
    exact not_lt.mpr hle (List.Lex.cons hlt)

/-- A graph in which two ways lead from `b` back to it. -/
def twoWays : DependencyGraph :=
  ofEdges [⟨"x", "y", .static⟩, ⟨"b", "c", .static⟩, ⟨"c", "d", .dynamic⟩,
    ⟨"d", "b", .static⟩, ⟨"c", "b", .static⟩]

/-- The shorter of the two ways is told. -/
theorem cycle?_twoWays : twoWays.NoLoops ∧ twoWays.cycle? = some ["b", "c", "b"] ∧
    (¬ ∀ a, ¬ TransGen twoWays.Joins a a) ∧
    ∃ start inner, ["b", "c", "b"] = start :: inner ++ [start] ∧
      IsLeast {a | TransGen twoWays.Joins a a} start ∧
      ∀ others, (start :: others ++ [start]).IsChain twoWays.Joins →
        inner.length < others.length ∨ inner.length = others.length ∧ inner ≤ others := by
  have hloops : twoWays.NoLoops := by
    unfold NoLoops
    decide +kernel
  have hcycle : twoWays.cycle? = some ["b", "c", "b"] := by cbv
  obtain ⟨-, hnone, htold⟩ := cycle?_exact.2 twoWays hloops
  obtain ⟨start, inner, hnames, hleast, -, -, hfirst⟩ := htold _ hcycle
  refine ⟨hloops, hcycle, fun hfree => ?_, start, inner, hnames, hleast, hfirst⟩
  rw [hnone.mpr hfree] at hcycle
  cases hcycle

end DependencyGraph

end ImportResolution
