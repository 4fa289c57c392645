/-
The dependency graph of a workspace, inferred from import records: each record
of a known project is resolved in turn, and leads to an edge unless it leads
nowhere or back to its own project.
-/
import ImportResolution.Dependency.Graph
import ImportResolution.Locator.Resolve

namespace ImportResolution.Locator

/-- The edge that a record leads to. -/
def edgeOf? (l : Locator) (r : ImportRecord) : Step (Option Edge) := do
  match l.projectRoot? r.source with
  | none => return none
  | some root =>
    let resolution ← l.resolve r.specifier root r.file
    return resolution.result.bind fun target =>
      if target = r.source then none else some ⟨r.source, target, r.kind⟩

/-- The edges that records lead to, in the order of the records. -/
def edgesOf (l : Locator) : List ImportRecord → Step (List Edge)
  | [] => return []
  | r :: rest => do
    let edge ← l.edgeOf? r
    let edges ← l.edgesOf rest
    return edge.toList ++ edges

/-- The graph of all projects with some edges. -/
def graphOf (l : Locator) (edges : List Edge) : DependencyGraph :=
  (l.projects.foldl (fun g p => g.addNode p.name) DependencyGraph.empty).addEdges edges

/-- The dependency graph that import records lead to. -/
def inferGraph (l : Locator) (records : List ImportRecord) : Step DependencyGraph :=
  return l.graphOf (← l.edgesOf records)

end ImportResolution.Locator
