/-
What the commands find out, and how it is told: as data, or as lines for the
reader with remarks beside them.
-/
import ImportResolution.CommandLine.Workspace
import ImportResolution.Dependency.Cycle
import ImportResolution.Dependency.Inference

namespace ImportResolution.CommandLine

open Json (Value)

/-- Lines of a report and remarks on it, both with their ends. -/
structure Telling where
  output : String
  remarks : String
deriving DecidableEq, Repr, Inhabited

namespace Telling

/-- Nothing is told. -/
def nothing : Telling := ⟨"", ""⟩

/-- One telling after another. -/
def followedBy (a b : Telling) : Telling :=
  ⟨a.output ++ b.output, a.remarks ++ b.remarks⟩

/-- A line of the report. -/
def line (text : String) : Telling := ⟨text ++ "\n", ""⟩

/-- A line that says that all went well. -/
def success (text : String) : Telling := line ("✓ " ++ text)

/-- A remark. -/
def note (text : String) : Telling := ⟨"", text ++ "\n"⟩

/-- A remark that something may be wrong. -/
def warning (text : String) : Telling := note ("⚠ " ++ text)

/-- A report as data. -/
def data (value : Value) : Telling := line value.toIndentedText

/-- Tellings in order. -/
def all (tellings : List Telling) : Telling :=
  tellings.foldl followedBy nothing

end Telling

-- ================================================================ resolve

/-- The resolution of one specifier. -/
structure ResolveReport where
  specifier : String
  file : String
  /-- The project that the importing file belongs to. -/
  project : String
  resolution : Locator.Resolution
deriving DecidableEq, Repr

namespace ResolveReport

/-- The report as data. -/
def toData (r : ResolveReport) : Value :=
  .object [("specifier", .text r.specifier), ("from", .text r.file), ("project", .text r.project),
    ("result", .ofText? r.resolution.result), ("source", r.resolution.source.toData)]

/-- The report for the reader. -/
def tell (r : ResolveReport) : Telling :=
  .line (r.specifier ++ " -> " ++ r.resolution.result.getD "no match" ++ " (" ++
    r.resolution.source.text ++ ")")

end ResolveReport

-- ================================================================== edges

/-- The edges that import records lead to. -/
structure EdgesReport where
  records : Nat
  graph : DependencyGraph
  memory : Locator.Memory
deriving Repr

namespace EdgesReport

/-- What was remembered, as data. -/
def statsData (m : Locator.Memory) : Value :=
  .object [("imports", m.answers.toData), ("packages", m.packages.answers.toData),
    ("descriptors", m.packages.files.descriptors.toData),
    ("compiler_config_loaded", .bool m.config.isSome)]

/-- A cycle as data. -/
def cycleData : Option (List String) → Value
  | some cycle => .texts cycle
  | none => .null

/-- The report as data. -/
def toData (r : EdgesReport) : Value :=
  .object [("edges", .array (r.graph.edges.map Edge.toData)), ("cycle", cycleData r.graph.cycle?),
    ("stats", statsData r.memory)]

/-- A remark on what was remembered. -/
def statsNote (m : Locator.Memory) : Telling :=
  .note ("imports: " ++ toString m.answers.size ++ " entries, " ++
    toString m.answers.hitPercent ++ "% hits; packages: " ++
    toString m.packages.answers.size ++ " entries; descriptors: " ++
    toString m.packages.files.descriptors.size ++ " read")

/-- The report for the reader, with a remark on what was remembered if asked for. -/
def tell (r : EdgesReport) (stats : Bool) : Telling :=
  .all (r.graph.edges.map (fun e => .line e.text) ++
    [match r.graph.cycle? with
      | some cycle => .warning ("Dependency cycle: " ++ DependencyGraph.cycleText cycle)
      | none => .nothing,
     if stats then statsNote r.memory else .nothing,
     .success (toString r.graph.edges.length ++ " edges from " ++ toString r.records ++
       " import records")])

end EdgesReport

-- ================================================================== paths

/-- The targets that aliases give for a specifier. -/
structure PathsReport where
  specifier : String
  /-- The compiler configuration that declares the aliases. -/
  config : Option String
  candidates : Option (List String)
deriving DecidableEq, Repr

namespace PathsReport

/-- The report as data. -/
def toData (r : PathsReport) : Value :=
  .object [("specifier", .text r.specifier), ("config", .ofText? r.config),
    ("candidates", match r.candidates with
      | some candidates => .texts candidates
      | none => .null)]

/-- The report for the reader. -/
def tell (r : PathsReport) : Telling :=
  match r.config, r.candidates with
  | none, _ => .warning "No compiler configuration found"
  | some config, none =>
    .warning ("No alias in " ++ config ++ " matches '" ++ r.specifier ++ "'")
  | some _, some candidates => .all (candidates.map .line)

end PathsReport

-- ================================================================== check

/-- What resolution depends on, and what is ambiguous in it. -/
structure CheckReport where
  settingsFile : Option String
  settings : Settings
  config : Option String
  aliases : Nat
  projects : Nat
  externals : Nat
  problems : List String
deriving DecidableEq, Repr

namespace CheckReport

/-- The report as data. -/
def toData (r : CheckReport) : Value :=
  .object [("settings_file", .ofText? r.settingsFile), ("settings", r.settings.toData),
    ("compiler_config", .ofText? r.config), ("aliases", .count r.aliases),
    ("projects", .count r.projects), ("externals", .count r.externals),
    ("problems", .texts r.problems)]

/-- The report for the reader. -/
def tell (r : CheckReport) : Telling :=
  .all ([.line ("settings: " ++ r.settingsFile.getD "defaults"),
    match r.config with
    | some path => .line ("compiler config: " ++ path ++ " (" ++ toString r.aliases ++ " aliases)")
    | none => .line "compiler config: none",
    .line ("graph: " ++ toString r.projects ++ " projects, " ++ toString r.externals ++
      " externals")] ++ r.problems.map .warning)

end CheckReport

end ImportResolution.CommandLine
