/-
The commands: resolving one specifier, inferring the edges of a batch of import
records, expanding a specifier through the aliases, and checking what
resolution depends on.
-/
import ImportResolution.CommandLine.Arguments
import ImportResolution.CommandLine.Reports

namespace ImportResolution.CommandLine

-- ================================================================ reports

/-- The project that a file belongs to, named or found by its path. -/
def owner (l : Locator) (file : String) (project : Option String) : Task String :=
  match project.or (l.roots.projectOf? file) with
  | some name => return name
  | none => remark ("'" ++ file ++ "' is not inside any project; pass --project")

/-- Resolves a specifier in a file. -/
def resolveReport (w : Workspace) (specifier file : String) (project : Option String) :
    Task ResolveReport := do
  let l ← w.locator
  let file := Text.withoutStart file "./"
  let project ← owner l file project
  match l.projectRoot? project with
  | none => remark ("Unknown project '" ++ project ++ "'")
  | some root =>
    let (resolution, _) ← Workspace.fresh (l.resolve specifier root file)
    return ⟨specifier, file, project, resolution⟩

/-- Infers the edges of the import records in a file. -/
def edgesReport (w : Workspace) (imports : String) : Task EdgesReport := do
  let l ← w.locator
  let records ← Workspace.loadRecords (w.given imports)
  let (graph, memory) ← Workspace.fresh (l.inferGraph records)
  return ⟨records.length, graph, memory⟩

/-- Expands a specifier through the aliases. -/
def pathsReport (w : Workspace) (specifier : String) : Task PathsReport := do
  let (settings, _) ← w.settings
  let config ← w.compilerConfig settings
  return ⟨specifier, config.map (·.path), config.bind (·.aliases.expand specifier)⟩

/-- Loads what resolution depends on and looks for ambiguities. What cannot be
understood is a failure here, though resolution passes over it. -/
def checkReport (w : Workspace) : Task CheckReport := do
  let (settings, file) ← w.settings
  let config ← w.compilerConfig settings
  let aliases := (config.map (·.aliases.size)).getD 0
  if (← get).isFile w.graph then
    let graph ← w.loadGraph
    return ⟨file, settings, config.map (·.path), aliases, graph.projects.length,
      graph.externals.length, graph.problems.map (·.message)⟩
  else
    return ⟨file, settings, config.map (·.path), aliases, 0, 0,
      ["Workspace graph " ++ w.graph ++ " does not exist"]⟩

-- ================================================================ outcomes

/-- How a command ends: what it has told, and the failure it ended with, if it
did. -/
structure Outcome where
  telling : Telling
  failure : Option Failure
deriving DecidableEq, Repr

namespace Outcome

/-- The standard output. -/
def output (o : Outcome) : String := o.telling.output

/-- The standard error output: the remarks, then the report of the failure. -/
def errors (o : Outcome) : String :=
  o.telling.remarks ++
    match o.failure with
    | some failure => failure.report ++ "\n"
    | none => ""

/-- The outcome of a task that tells all it has to tell when it is done. -/
def ofTask (task : Task Telling) (store : FileStore) : Outcome :=
  match (task store).1 with
  | .ok telling => ⟨telling, none⟩
  | .error failure => ⟨.nothing, some failure⟩

/-- The outcome of a check: a failure if there are problems. -/
def ofCheck (json : Bool) (r : CheckReport) : Outcome :=
  let telling : Telling := if json then .data r.toData else r.tell
  if r.problems = [] then
    ⟨telling.followedBy <|
      if json then .nothing else .success "Workspace inputs look consistent", none⟩
  else ⟨telling, some (.ofRemark (toString r.problems.length ++ " problem(s) found"))⟩

end Outcome

/-- Carries out a command. -/
def Workspace.run (w : Workspace) (json : Bool) (command : Command) (store : FileStore) :
    Outcome :=
  match command with
  | .resolve specifier file project =>
    Outcome.ofTask (do
      let r ← resolveReport w specifier file project
      return if json then .data r.toData else r.tell) store
  | .edges imports stats =>
    Outcome.ofTask (do
      let r ← edgesReport w imports
      return if json then .data r.toData else r.tell stats) store
  | .paths specifier =>
    Outcome.ofTask (do
      let r ← pathsReport w specifier
      return if json then .data r.toData else r.tell) store
  | .check =>
    match (checkReport w store).1 with
    | .ok r => Outcome.ofCheck json r
    | .error failure => ⟨.nothing, some failure⟩

/-- The workspace that a command line names: the root it gives, or else the
directory of the nearest settings file. -/
def Invocation.workspace (i : Invocation) (current : String)
    (environment : List (String × String)) (store : FileStore) : Workspace :=
  let root := match i.root with
    | some root => FilePath.join current root
    | none => Settings.workspaceRoot store current
  { root, graph := FilePath.join root i.graph, current, environment, options := i.options }

/-- Carries out a command line over the files there are. -/
def Invocation.run (i : Invocation) (current : String) (environment : List (String × String))
    (store : FileStore) : Outcome :=
  (i.workspace current environment store).run i.json i.command store

end ImportResolution.CommandLine
