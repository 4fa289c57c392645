/-
The locator: what is known of a workspace when imports are resolved, what is
remembered from one resolution to the next, and the helpers that look outside.
-/
import ImportResolution.CompilerConfig.Chain
import ImportResolution.InstalledPackages
import ImportResolution.ModuleSearch.Compiler
import ImportResolution.ModuleSearch.Runtime
import ImportResolution.ProjectRoots
import ImportResolution.Settings.Basic
import ImportResolution.Strategy
import ImportResolution.Text.Shown

namespace ImportResolution

/-- The helpers that look outside the graph. Each may be any function of the
files. -/
structure Collaborators where
  /-- The compiler configuration in force, if there is one. -/
  loadConfig : Reading (Option CompilerConfig)
  /-- The descriptor of a package as installed for a directory. -/
  locatePackage : FileStore → String → String → Option String
  /-- The compiler's own search. -/
  language : CompilerConfig → ModuleResolver
  /-- The runtime's own search. -/
  runtime : ModuleResolver

/-- The helpers that work on the files of a workspace. -/
def Collaborators.standard (root : String) (settings : Settings) : Collaborators where
  loadConfig := CompilerConfig.load settings.installedDirectory settings.configFiles root
  locatePackage := InstalledPackages.nearestDescriptor? settings.installedDirectory
  language := ModuleSearch.Compiler.resolve settings.installedDirectory
  runtime := ModuleSearch.Runtime.resolve settings.installedDirectory

/-- What is known of a workspace. -/
structure Locator where
  /-- The root of the workspace, cleaned. -/
  workspaceRoot : String
  settings : Settings
  projects : List Project
  externals : List External
  collaborators : Collaborators
  /-- The roots of the projects. -/
  roots : ProjectRoots := .ofProjects projects settings.installedDirectory
  roots_eq : roots = .ofProjects projects settings.installedDirectory := by rfl

namespace Locator

/-- The locator of a workspace with helpers of its own choice. -/
def build (root : String) (settings : Settings) (projects : List Project)
    (externals : List External) (collaborators : Collaborators) : Locator where
  workspaceRoot := FilePath.clean root
  settings
  projects
  externals
  collaborators

/-- The locator of a workspace graph with the usual helpers. -/
def ofGraph (root : String) (settings : Settings) (graph : WorkspaceGraph) : Locator :=
  build root settings graph.projects graph.externals
    (.standard (FilePath.clean root) settings)

/-- The known packages. -/
def installedPackages (l : Locator) : InstalledPackages where
  workspaceRoot := l.workspaceRoot
  externals := l.externals
  locate := l.collaborators.locatePackage

/-- The root of a project in normal form; of two projects of one name the later
counts. -/
def projectRoot? (l : Locator) (name : String) : Option String :=
  (l.projects.reverse.find? (·.name == name)).map fun p => WorkspacePath.normalize p.root

/-- The first project that declares a package name. -/
def packageOwner? (l : Locator) (package : String) : Option String :=
  (l.projects.find? fun p => p.metadata.packageName == some package).map (·.name)

-- =============================================================== memory

/-- How often helpers were called. -/
structure Calls where
  config : Nat
  language : Nat
  runtime : Nat
deriving DecidableEq, Repr

/-- What is remembered from one resolution to the next. -/
structure Memory where
  /-- The files, and what is known of installed packages. -/
  packages : InstalledPackages.Memory
  /-- The answers by specifier and context. -/
  answers : Memo (String × String) (Option String)
  /-- The compiler configuration once it has been asked for; none inside if
  there is none, or none that can be used. -/
  config : Option (Option CompilerConfig)
  calls : Calls
deriving Repr

/-- Nothing is remembered. -/
def Memory.ofStore (store : FileStore) : Memory :=
  ⟨.ofStore store, .empty, none, ⟨0, 0, 0⟩⟩

/-- The files as they are now. -/
def Memory.store (m : Memory) : FileStore := m.packages.files.store

/-- The memory over other files. -/
def Memory.withStore (m : Memory) (store : FileStore) : Memory :=
  { m with packages.files.store := store }

/-- A step of the locator. -/
abbrev Step (α : Type) := StateM Memory α

/-- Work on what is known of packages. -/
def onPackages {α : Type} (work : StateM InstalledPackages.Memory α) : Step α := fun m =>
  let (a, packages) := work m.packages
  (a, { m with packages })

/-- A search through the files. -/
def onFiles {α : Type} (search : Search α) : Step α :=
  onPackages (InstalledPackages.withFiles search)

/-- Work that reads files. -/
def onStore {α : Type} (reading : Reading α) : Step (Except Fault α) := fun m =>
  let (a, store) := reading m.store
  (a, m.withStore store)

/-- How the locator stands, on one line. -/
def summary (l : Locator) (m : Memory) : String :=
  "TargetProjectLocator \x7b workspace_root: " ++ Text.shown l.workspaceRoot ++
    ", projects: " ++ toString l.projects.length ++ ", externals: " ++
    toString l.externals.length ++ ", cached: " ++ toString m.answers.size ++ " \x7d"

end Locator

end ImportResolution
