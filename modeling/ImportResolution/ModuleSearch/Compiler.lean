/-
The search of the compiler: a specifier that is no path is looked for among the
aliases, then from the base URL, then in the installed directories from the
importing file outwards, where a package of type declarations may stand in for
the package itself.
-/
import ImportResolution.CompilerConfig.Chain
import ImportResolution.ModuleSearch.Basic

namespace ImportResolution.ModuleSearch.Compiler

-- ============================================================= spellings

/-- The endings that the compiler adds. -/
def endings : List String :=
  [".ts", ".tsx", ".d.ts", ".js", ".jsx", ".mjs", ".cjs", ".json"]

/-- Endings of compiled files, with those of the sources that they may stand for. -/
def sources : List (String × List String) :=
  [(".js", [".ts", ".tsx", ".d.ts"]), (".jsx", [".tsx", ".d.ts"]),
    (".mjs", [".mts", ".d.mts"]), (".cjs", [".cts", ".d.cts"])]

/-- Whether a path has the ending of a module. -/
def hasModuleEnding (path : String) : Bool :=
  (endings ++ [".mts", ".cts"]).any (Text.endsWith path)

/-- The sources that a path to a compiled file may stand for. -/
def sourceFiles (path : String) : List String :=
  sources.flatMap fun (ending, replacements) =>
    match Text.dropEnd? path ending with
    | some stem => withEndings stem replacements
    | none => []

/-- The files that a path may stand for: with the ending of a module, the source
of a compiled file and the path itself; and in any case the path with an ending. -/
def files (path : String) : List String :=
  (if hasModuleEnding path then sourceFiles path ++ [path] else []) ++ withEndings path endings

/-- How the compiler reads a path. -/
def spelling : Spelling where
  files
  endings
  entries := fun descriptor => descriptor.typesEntry?.toList ++ descriptor.main.toList
  asksFirst := true

-- ============================================================= the search

/-- The file that the aliases lead to: the first target that leads to one, among
those of the closest pattern. -/
def throughAliases? (config : CompilerConfig) (specifier : String) : Search (Option String) :=
  firstFound? <| ((config.aliases.closest? specifier).getD []).map fun target =>
    load spelling (FilePath.clean (FilePath.join config.aliasBase target))

/-- The file that a specifier leads to from the base URL. -/
def fromBaseUrl? (config : CompilerConfig) (specifier : String) : Search (Option String) :=
  match config.baseUrl with
  | some base => load spelling (FilePath.clean (FilePath.join base specifier))
  | none => return none

/-- A character of a package name in the name of its type declarations. -/
def flatChar (c : Char) : List Char :=
  if c = '/' then ['_', '_'] else [c]

/-- The package that holds the type declarations of a package. -/
def declarationPackage (package : String) : String :=
  "@types/" ++ String.ofList ((Text.withoutStart package "@").toList.flatMap flatChar)

/-- Where the type declarations for a specifier are installed. -/
def declarationPlace (place specifier : String) : String :=
  let dir := FilePath.join place (declarationPackage (Specifier.packageName specifier))
  match Specifier.subpath? specifier with
  | some subpath => FilePath.join dir subpath
  | none => dir

/-- What the installed directory inside `dir` holds for a specifier. -/
def level? (installed specifier dir : String) : Search (Option String) := do
  let place := FilePath.join dir installed
  unless ← hasDirectory place do return none
  firstFound? [load spelling (FilePath.join place specifier),
    load spelling (declarationPlace place specifier)]

/-- The file that a specifier means to the compiler. -/
def resolve (installed : String) (config : CompilerConfig) : ModuleResolver :=
  fun specifier file => do
    let dir := importingDirectory file
    let found ←
      if isPath specifier then load spelling (FilePath.clean (FilePath.join dir specifier))
      else
        firstFound? <| throughAliases? config specifier :: fromBaseUrl? config specifier ::
          (FilePath.ancestors dir).map (level? installed specifier)
    return orNotFound specifier found

end ImportResolution.ModuleSearch.Compiler
