/-
The strategies by which an import is resolved, in the fixed order in which they
are tried, and what an attempt can come to.
-/
import ImportResolution.Json.Value

namespace ImportResolution

/-- A way to resolve an import. -/
inductive Strategy where
  /-- A relative specifier is a path. -/
  | relative
  /-- An alias of the compiler stands for a path. -/
  | pathMapping
  /-- A module of the runtime is no node of the graph. -/
  | builtin
  /-- A package is installed. -/
  | external
  /-- The compiler's own search finds a file. -/
  | languageFallback
  /-- A project declares the package name. -/
  | workspacePackage
  /-- The runtime's own search finds a file. -/
  | runtimeFallback
deriving DecidableEq, Repr, Inhabited

namespace Strategy

/-- Every strategy, in the order of trial. -/
def order : List Strategy :=
  [.relative, .pathMapping, .builtin, .external, .languageFallback, .workspacePackage,
    .runtimeFallback]

/-- The name of a strategy. -/
def name : Strategy → String
  | .relative => "relative"
  | .pathMapping => "path-mapping"
  | .builtin => "builtin"
  | .external => "external"
  | .languageFallback => "language-fallback"
  | .workspacePackage => "workspace-package"
  | .runtimeFallback => "runtime-fallback"

/-- Each strategy is tried once. -/
theorem nodup_order : order.Nodup := by decide

/-- No strategy is left out. -/
theorem mem_order (s : Strategy) : s ∈ order := by
  cases s <;> decide

end Strategy

/-- What an attempt comes to. -/
inductive Attempt where
  /-- The import leads to a node of the graph. -/
  | resolved (id : String)
  /-- The import leads to no node, and no other strategy may say otherwise. -/
  | rejected
  /-- The strategy has nothing to say. -/
  | skipped
deriving DecidableEq, Repr, Inhabited

namespace Attempt

/-- Nothing found is nothing said. -/
def ofOption : Option String → Attempt
  | some id => .resolved id
  | none => .skipped

/-- Whether no further strategy is tried. -/
def isFinal : Attempt → Bool
  | .skipped => false
  | _ => true

end Attempt

/-- Where an answer comes from. -/
inductive Source where
  /-- It was in memory. -/
  | cache
  /-- A strategy decided. -/
  | decided (strategy : Strategy)
  /-- No strategy had anything to say. -/
  | exhausted
deriving DecidableEq, Repr, Inhabited

namespace Source

/-- How a source is told. -/
def text : Source → String
  | .cache => "cache"
  | .decided strategy => strategy.name
  | .exhausted => "exhausted"

/-- The source as data. -/
def toData : Source → Json.Value
  | .decided strategy => .object [("strategy", .text strategy.name)]
  | source => .text source.text

end Source

end ImportResolution
