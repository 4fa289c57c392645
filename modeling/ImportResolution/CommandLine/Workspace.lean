/-
The workspace that a command works on: where it is, and how its settings, its
graph and its compiler configuration are loaded.
-/
import ImportResolution.Locator.Resolve
import ImportResolution.Settings.Lookup
import ImportResolution.Workspace.Imports

namespace ImportResolution.CommandLine

/-- A task over the files of a workspace. -/
abbrev Task (α : Type) := ExceptT Failure (StateM FileStore) α

/-- Reading as part of a task. -/
def reading {α : Type} (r : Reading α) : Task α := fun store =>
  match r store with
  | (.ok a, store) => (.ok a, store)
  | (.error fault, store) => (.error (.ofFault fault), store)

/-- The task with a name for what is being done, for when it fails. -/
def doing {α : Type} (what : String) (task : Task α) : Task α := fun store =>
  match task store with
  | (.error failure, store) => (.error (failure.within what), store)
  | done => done

/-- The task fails with a remark. -/
def remark {α : Type} (text : String) : Task α :=
  throw (.ofRemark text)

/-- The workspace of a command. -/
structure Workspace where
  /-- The root directory, spelled as it was named. -/
  root : String
  /-- The file of the workspace graph. -/
  graph : String
  /-- The directory that paths on the command line are seen from. -/
  current : String
  /-- The variables of the environment. -/
  environment : List (String × String)
  /-- Settings given on the command line. -/
  options : List (String × String)
deriving Repr

namespace Workspace

/-- A path on the command line, seen from the current directory. -/
def given (w : Workspace) (path : String) : String :=
  FilePath.join w.current path

/-- The settings in force and the file they are in. -/
def settings (w : Workspace) : Task (Settings × Option String) :=
  doing "Failed to load settings" <| reading fun store =>
    Settings.loadLayered store w.root (Settings.variablesFor w.environment) w.options

/-- The fault of a file that is no workspace graph, or holds no import records. -/
def malformed (path : String) : Fault :=
  .json path "not of the expected form"

/-- The workspace graph. -/
def loadGraph (w : Workspace) : Task WorkspaceGraph := do
  let content ← doing ("Failed to read workspace graph " ++ w.graph) <|
    reading (FileStore.read · w.graph)
  match WorkspaceGraph.ofText? content with
  | some graph => return graph
  | none => throw (.ofFault (malformed w.graph))

/-- The import records in a file. -/
def loadRecords (path : String) : Task (List ImportRecord) := do
  let content ← reading (FileStore.read · path)
  match ImportRecord.listOfText? content with
  | some records => return records
  | none => throw (.ofFault (malformed path))

/-- The compiler configuration in force. -/
def compilerConfig (w : Workspace) (settings : Settings) : Task (Option CompilerConfig) :=
  reading (CompilerConfig.load settings.installedDirectory settings.configFiles w.root)

/-- The locator of the workspace. -/
def locator (w : Workspace) : Task Locator := do
  let (settings, _) ← w.settings
  let graph ← w.loadGraph
  return .ofGraph w.root settings graph

/-- A run of a locator over the files, from an empty memory. -/
def fresh {α : Type} (step : Locator.Step α) : Task (α × Locator.Memory) := fun store =>
  let (a, memory) := step (Locator.Memory.ofStore store)
  (.ok (a, memory), memory.store)

end Workspace

end ImportResolution.CommandLine
