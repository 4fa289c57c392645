/-
The workspace graph: the projects of a workspace and the packages installed in
it, each with the identifier it has as a node of the dependency graph.
-/
import ImportResolution.Json.Record
import ImportResolution.WorkspacePath

namespace ImportResolution

open Json (Value Document Fields Reader)

/-- What is known of a project besides its root. -/
structure ProjectMetadata where
  /-- The name that the project's own package descriptor declares. -/
  packageName : Option String
  tags : List String
  /-- Everything else, sorted by key and carried along as it is. -/
  extra : List (String × Value)
deriving Repr, Inhabited

/-- A project of the workspace. -/
structure Project where
  name : String
  /-- The root directory, relative to the workspace. -/
  root : String
  metadata : ProjectMetadata
deriving Repr, Inhabited

/-- An installed package. -/
structure External where
  /-- Its identifier in the graph. -/
  name : String
  packageName : String
  version : String
deriving DecidableEq, Repr, Inhabited

/-- The projects and the installed packages of a workspace. -/
structure WorkspaceGraph where
  projects : List Project
  externals : List External
deriving Repr, Inhabited

-- ============================================================= metadata

namespace ProjectMetadata

/-- The metadata of which nothing is known. -/
def empty : ProjectMetadata := ⟨none, [], []⟩

/-- The members whose names are not fields of the metadata, as data. -/
def extraMembers? (a : Json.Allowance) :
    List (Option String × Document) → Option (List (String × Value))
  | [] => some []
  | (key, value) :: rest => do
    let key ← key
    if key = "packageName" ∨ key = "tags" then extraMembers? a rest
    else
      let value ← value.data? a.depth
      let rest ← extraMembers? a rest
      some ((key, value) :: rest)

/-- Metadata in a document, which has to be an object. -/
def reader : Reader ProjectMetadata := fun a d =>
  match d with
  | .object members => do
    let f ← Fields.ofDocument? ["packageName", "tags"] a d
    let packageName ← f.optional "packageName" Json.Read.text
    let tags ← f.defaulted "tags" [] (Json.Read.list Json.Read.text)
    let extra ← extraMembers? f.allowance members
    some ⟨packageName, tags, Table.sorted extra⟩
  | _ => none

/-- The metadata as data; nothing is written for what is not known. -/
def toData (m : ProjectMetadata) : Value :=
  .object <|
    (match m.packageName with
      | some name => [("packageName", .text name)]
      | none => []) ++
    (if m.tags = [] then [] else [("tags", Value.texts m.tags)]) ++ m.extra

end ProjectMetadata

-- ================================================================= nodes

namespace Project

/-- A project of which only name, root and perhaps a package name are known. -/
def ofRoot (name root : String) (packageName : Option String) : Project :=
  ⟨name, root, { ProjectMetadata.empty with packageName }⟩

/-- A project in a document. -/
def reader : Reader Project := fun a d => do
  let f ← Fields.ofDocument? ["name", "root", "metadata"] a d
  let name ← f.required "name" Json.Read.text
  let root ← f.required "root" Json.Read.text
  let metadata ← f.defaulted "metadata" ProjectMetadata.empty ProjectMetadata.reader
  some ⟨name, root, metadata⟩

/-- The project as data. -/
def toData (p : Project) : Value :=
  .object [("name", .text p.name), ("root", .text p.root), ("metadata", p.metadata.toData)]

end Project

namespace External

/-- The package under its usual identifier. -/
def npm (packageName version : String) : External :=
  ⟨"npm:" ++ packageName ++ "@" ++ version, packageName, version⟩

/-- Whether this is the package of a name and version. -/
def describes (e : External) (packageName version : String) : Bool :=
  e.packageName == packageName && e.version == version

/-- An installed package in a document. -/
def reader : Reader External := fun a d => do
  let f ← Fields.ofDocument? ["name", "packageName", "version"] a d
  let name ← f.required "name" Json.Read.text
  let packageName ← f.required "packageName" Json.Read.text
  let version ← f.required "version" Json.Read.text
  some ⟨name, packageName, version⟩

/-- The installed package as data. -/
def toData (e : External) : Value :=
  .object [("name", .text e.name), ("packageName", .text e.packageName),
    ("version", .text e.version)]

end External

-- ================================================================= graph

namespace WorkspaceGraph

/-- The graph without nodes. -/
def empty : WorkspaceGraph := ⟨[], []⟩

/-- A graph in a document. -/
def reader : Reader WorkspaceGraph := fun a d => do
  let f ← Fields.ofDocument? ["projects", "externals"] a d
  let projects ← f.defaulted "projects" [] (Json.Read.list Project.reader)
  let externals ← f.defaulted "externals" [] (Json.Read.list External.reader)
  some ⟨projects, externals⟩

/-- The graph that a text holds. -/
def ofText? (s : String) : Option WorkspaceGraph :=
  (Document.ofText? s).bind (reader .strict)

/-- The graph as data. -/
def toData (g : WorkspaceGraph) : Value :=
  .object [("projects", .array (g.projects.map Project.toData)),
    ("externals", .array (g.externals.map External.toData))]

/-- The graph as compact text. -/
def toText (g : WorkspaceGraph) : String := g.toData.toText

/-- The first project of a name. -/
def project? (g : WorkspaceGraph) (name : String) : Option Project :=
  g.projects.find? (·.name == name)

/-- The packages whose name and version are among those already seen or stand
earlier in the list. -/
def shadowed (seen : List (String × String)) : List External → List External
  | [] => []
  | e :: rest =>
    if (e.packageName, e.version) ∈ seen then e :: shadowed seen rest
    else shadowed ((e.packageName, e.version) :: seen) rest

/-- The installed packages that repeat the name and version of an earlier one. -/
def duplicateExternals (g : WorkspaceGraph) : List External :=
  shadowed [] g.externals

-- ============================================================== problems

/-- An ambiguity in a workspace graph. -/
inductive Problem where
  /-- Two installed packages of one name and version. -/
  | duplicateExternal (node : External)
  /-- Two projects with one root. -/
  | sharedRoot (first second root : String)
  /-- Two projects that declare one package name. -/
  | sharedPackage (first second packageName : String)
deriving DecidableEq, Repr

/-- How an ambiguity is told. -/
def Problem.message : Problem → String
  | .duplicateExternal node =>
    "External '" ++ node.name ++ "' duplicates " ++ node.packageName ++ "@" ++ node.version
  | .sharedRoot first second root =>
    "Projects '" ++ first ++ "' and '" ++ second ++ "' share root '" ++ root ++ "'"
  | .sharedPackage first second packageName =>
    "Projects '" ++ first ++ "' and '" ++ second ++ "' both declare package '" ++
      packageName ++ "'"

/-- The clashes of each project with the last earlier one of the same root or
package name. -/
def clashes (roots packages : List (String × String)) : List Project → List Problem
  | [] => []
  | p :: rest =>
    let root := WorkspacePath.normalize p.root
    let sharedRoot := match roots.lookup root with
      | some first => [.sharedRoot first p.name root]
      | none => []
    match p.metadata.packageName with
    | none => sharedRoot ++ clashes (Table.put root p.name roots) packages rest
    | some packageName =>
      let sharedPackage := match packages.lookup packageName with
        | some first => [.sharedPackage first p.name packageName]
        | none => []
      sharedRoot ++ sharedPackage ++
        clashes (Table.put root p.name roots) (Table.put packageName p.name packages) rest

/-- The ambiguities of a graph: repeated packages, then clashes of projects. -/
def problems (g : WorkspaceGraph) : List Problem :=
  g.duplicateExternals.map .duplicateExternal ++ clashes [] [] g.projects

end WorkspaceGraph

end ImportResolution
