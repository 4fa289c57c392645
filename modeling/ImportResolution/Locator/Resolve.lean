/-
Resolving an import: the strategies are tried in order, the first final attempt
decides, and its outcome is remembered for the specifier and the project root
that it was asked for. A relative specifier is remembered under the path that
it leads to, since that depends on the importing file.

A helper that fails makes its strategy say nothing; it never makes a resolution
fail.
-/
import ImportResolution.Builtins
import ImportResolution.Locator.Basic

namespace ImportResolution.Locator

-- ========================================================= configuration

/-- The compiler configuration, loaded when it is first asked for. One that
cannot be loaded counts as none. -/
def compilerConfig? (l : Locator) : Step (Option CompilerConfig) := do
  match (← get).config with
  | some known => return known
  | none =>
    modify fun m => { m with calls.config := m.calls.config + 1 }
    let known := match ← onStore l.collaborators.loadConfig with
      | .ok config => config
      | .error _ => none
    modify fun m => { m with config := some known }
    return known

/-- The targets that the compiler's aliases give for a specifier. -/
def expandAliases (l : Locator) (specifier : String) : Step (Option (List String)) :=
  return (← l.compilerConfig?).bind (·.aliases.expand specifier)

-- ============================================================ strategies

/-- The project that a file belongs to, by its path from the root of the file
system. -/
def projectOfFile? (l : Locator) (path : String) : Option String :=
  (FilePath.relativeTo? l.workspaceRoot path).bind l.roots.projectOf?

/-- Whether a path goes through a directory of installed packages. -/
def isInstalled (l : Locator) (path : String) : Bool :=
  WorkspacePath.hasSegment path l.settings.installedDirectory

/-- The project of a file that a search has found; an installed file has none. -/
def projectOfFound? (l : Locator) (path : String) : Option String :=
  (FilePath.relativeTo? l.workspaceRoot path).bind fun path =>
    if l.isInstalled path then none else l.roots.projectOf? path

/-- The path that a relative specifier leads to from a file. -/
def relativeTarget (specifier file : String) : String :=
  WorkspacePath.join (WorkspacePath.directory file) specifier

/-- A relative specifier leads to the project of its path or to nothing. -/
def tryRelative (l : Locator) (specifier file : String) : Attempt :=
  if WorkspacePath.isRelative specifier then
    if l.isInstalled (relativeTarget specifier file) then .rejected
    else
      match l.roots.projectOf? (relativeTarget specifier file) with
      | some project => .resolved project
      | none => .rejected
  else .skipped

/-- An alias leads to the project of its first target that belongs to one. -/
def tryAliases (l : Locator) (specifier : String) : Step Attempt := do
  match ← l.compilerConfig? with
  | none => return .skipped
  | some config =>
    return .ofOption <| ((config.aliases.expand specifier).getD []).findSome? fun target =>
      l.projectOfFile? (FilePath.clean (FilePath.join config.aliasBase target))

/-- A module of the runtime leads to nothing. -/
def tryBuiltins (l : Locator) (specifier : String) : Attempt :=
  if Builtins.covers l.settings.extraBuiltins specifier then .rejected else .skipped

/-- The project of the file that a search finds. -/
def tryModuleSearch (l : Locator) (resolver : ModuleResolver) (specifier file : String) :
    Step Attempt := do
  match ← onFiles (resolver specifier (FilePath.join l.workspaceRoot file)) with
  | .ok path => return .ofOption (l.projectOfFound? path)
  | .error _ => return .skipped

/-- The compiler's own search, where aliases are declared. -/
def tryLanguage (l : Locator) (specifier file : String) : Step Attempt := do
  if l.settings.languageFallback then
    match ← l.compilerConfig? with
    | none => return .skipped
    | some config =>
      if config.hasAliases then
        modify fun m => { m with calls.language := m.calls.language + 1 }
        l.tryModuleSearch (l.collaborators.language config) specifier file
      else return .skipped
  else return .skipped

/-- The runtime's own search. -/
def tryRuntime (l : Locator) (specifier file : String) : Step Attempt := do
  if l.settings.runtimeFallback then
    modify fun m => { m with calls.runtime := m.calls.runtime + 1 }
    l.tryModuleSearch l.collaborators.runtime specifier file
  else return .skipped

/-- What a strategy says of a specifier in a file of the project at `context`,
both paths in normal form. -/
def attempt (l : Locator) (specifier context file : String) : Strategy → Step Attempt
  | .relative => return l.tryRelative specifier file
  | .pathMapping => l.tryAliases specifier
  | .builtin => return l.tryBuiltins specifier
  | .external =>
    return .ofOption (← onPackages (l.installedPackages.resolve specifier context))
  | .languageFallback => l.tryLanguage specifier file
  | .workspacePackage => return .ofOption (l.packageOwner? (Specifier.packageName specifier))
  | .runtimeFallback => l.tryRuntime specifier file

/-- The outcome of the first final attempt among some strategies. -/
def tryStrategies (l : Locator) (specifier context file : String) :
    List Strategy → Step (Option String × Source)
  | [] => return (none, .exhausted)
  | strategy :: rest => do
    match ← l.attempt specifier context file strategy with
    | .resolved id => return (some id, .decided strategy)
    | .rejected => return (none, .decided strategy)
    | .skipped => l.tryStrategies specifier context file rest

-- ============================================================ resolution

/-- A resolution: the node that an import leads to, if any, and where the answer
comes from. -/
structure Resolution where
  result : Option String
  source : Source
deriving DecidableEq, Repr, Inhabited

/-- What a specifier in a file is remembered under. -/
def memoryKey (specifier file : String) : String :=
  if WorkspacePath.isRelative specifier then "./" ++ relativeTarget specifier file
  else specifier

/-- The resolution of a specifier in a file of the project at `context`. -/
def resolve (l : Locator) (specifier context file : String) : Step Resolution := do
  let file := WorkspacePath.ofGiven file
  let context := WorkspacePath.normalize context
  let key := (memoryKey specifier file, context)
  let (known, answers) := (← get).answers.get? key
  modify ({ · with answers })
  match known with
  | some result => return ⟨result, .cache⟩
  | none =>
    let (outcome, source) ← l.tryStrategies specifier context file Strategy.order
    let (result, answers) := (← get).answers.insert key outcome
    modify ({ · with answers })
    return ⟨result, source⟩

end ImportResolution.Locator
