/-
The roots of the projects of a workspace, and the project that a path belongs
to: the one with the nearest root at or above the path. Paths of installed
packages, paths that climb out of the workspace and absolute paths belong to no
project.
-/
import ImportResolution.Workspace.Graph

namespace ImportResolution

/-- Project roots in normal form with the projects' names, each root once. -/
structure ProjectRoots where
  entries : List (String × String)
  /-- The name of directories that hold installed packages. -/
  installedDirectory : String
deriving DecidableEq, Repr, Inhabited

namespace ProjectRoots

/-- The roots of some projects; of two projects with one root the later counts. -/
def ofProjects (projects : List Project) (installedDirectory : String) : ProjectRoots where
  entries := Table.ofEntries (projects.map fun p => (WorkspacePath.normalize p.root, p.name))
  installedDirectory

/-- How many roots there are. -/
def size (r : ProjectRoots) : Nat := r.entries.length

/-- Whether there is no root. -/
def isEmpty (r : ProjectRoots) : Bool := r.entries.isEmpty

/-- The roots in order of their texts. -/
def sortedRoots (r : ProjectRoots) : List String :=
  Table.keys (Table.sorted r.entries)

/-- A root of the project of a name. -/
def rootOf? (r : ProjectRoots) (name : String) : Option String :=
  (r.entries.find? (·.2 == name)).map Prod.fst

/-- The path and the directories around it, at most `steps` of them. -/
def outwards : Nat → String → List String
  | 0, p => [p]
  | steps + 1, p => if p = "." then [p] else p :: outwards steps (WorkspacePath.directory p)

/-- A path in normal form and the directories around it, up to the root of the
workspace. No path has more directories around it than characters. -/
def enclosing (p : String) : List String :=
  outwards p.length p

/-- Whether a path in normal form may belong to a project. -/
def admits (r : ProjectRoots) (p : String) : Bool :=
  !(WorkspacePath.hasSegment p r.installedDirectory || WorkspacePath.escapes p ||
    WorkspacePath.isRooted p)

/-- The project that a path belongs to. -/
def projectOf? (r : ProjectRoots) (path : String) : Option String :=
  let p := WorkspacePath.ofGiven path
  if r.admits p then (enclosing p).findSome? fun root => r.entries.lookup root else none

end ProjectRoots

end ImportResolution
