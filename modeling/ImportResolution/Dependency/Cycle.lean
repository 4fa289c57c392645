/-
Cycles of a dependency graph. The cycle that is told goes through the first node,
in order of names, that is in a cycle with another node, and is a shortest one
through it.
-/
import ImportResolution.Dependency.Graph
import ImportResolution.Dependency.Search

namespace ImportResolution.DependencyGraph

/-- A cycle as the names of its nodes, the first one repeated at the end, if the
components of the graph are given in some order. A component of one place is no
cycle. -/
def cycleAmong? (g : DependencyGraph) (components : List (List g.Place)) :
    Option (List String) := do
  let start ← (components.filter (1 < ·.length)).flatten.minOn? g.nameAt
  let way ← Places.wayBack? g.successors start
  return way.map g.nameAt

/-- A cycle as the names of its nodes, the first one repeated at the end. -/
def cycle? (g : DependencyGraph) : Option (List String) :=
  g.cycleAmong? (Places.components g.successors)

/-- How a cycle is told. -/
def cycleText (cycle : List String) : String :=
  " -> ".intercalate cycle

end ImportResolution.DependencyGraph
