/-
The search of the runtime: a specifier that is no path is looked for in the
installed directories from the importing file outwards. What a package offers
under its name alone is decided by its entry points, where it has any.
-/
import ImportResolution.ModuleSearch.Basic

namespace ImportResolution.ModuleSearch.Runtime

/-- The endings that the runtime adds. -/
def endings : List String := [".js", ".json", ".node"]

/-- The conditions under which entry points are chosen. -/
def conditions : List String := ["require", "node", "default"]

/-- How the runtime reads a path: as it is, then with an ending. -/
def spelling : Spelling where
  files := fun path => path :: withEndings path endings
  endings
  entries := fun descriptor => descriptor.main.toList
  asksFirst := false

/-- The descriptor of a package that declares entry points, if it does. -/
def offering? (packageDir : String) : Search (Option PackageDescriptor) := do
  match ← PackageFiles.descriptorIn? packageDir with
  | some descriptor => return if descriptor.entryPoints.isSome then some descriptor else none
  | none => return none

/-- The descriptor that decides what a specifier means: that of a package with
entry points, when the specifier is the package's name alone. -/
def deciding? (specifier packageDir : String) : Search (Option PackageDescriptor) :=
  if (Specifier.subpath? specifier).isNone then offering? packageDir else return none

/-- The file that the entry points of a package lead to. -/
def offered? (packageDir : String) (descriptor : PackageDescriptor) : Search (Option String) :=
  match descriptor.rootTarget? conditions with
  | some target => firstFile? [FilePath.clean (FilePath.join packageDir target)]
  | none => return none

/-- What the installed directory inside `dir` says about a specifier. Nothing
is installed for the installed directory itself. -/
def level? (installed specifier origin dir : String) :
    Search (Option (Except Fault String)) := do
  if FilePath.fileName? dir = some installed then return none
  let place := FilePath.join dir installed
  unless ← hasDirectory place do return none
  let package := Specifier.packageName specifier
  let packageDir := FilePath.join place package
  match ← deciding? specifier packageDir with
  | some descriptor =>
    match ← offered? packageDir descriptor with
    | some path => return some (.ok path)
    | none => return some (.error (.packageNotFound package origin))
  | none => return (← load spelling (FilePath.join place specifier)).map .ok

/-- The file that a specifier means to the runtime. -/
def resolve (installed : String) : ModuleResolver := fun specifier file => do
  let dir := importingDirectory file
  if isPath specifier then
    return orNotFound specifier (← load spelling (FilePath.clean (FilePath.join dir specifier)))
  else
    match ← firstFound? ((FilePath.ancestors dir).map (level? installed specifier dir)) with
    | some answer => return answer
    | none => return .error (.moduleNotFound specifier)

end ImportResolution.ModuleSearch.Runtime
