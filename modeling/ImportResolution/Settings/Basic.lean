/-
The settings of a resolver and what is demanded of them: the installed
directory is one directory level, and no configuration file name is blank.
-/
import ImportResolution.Fault
import ImportResolution.Json.Value
import ImportResolution.Text.Blank

namespace ImportResolution

/-- The settings of a resolver. -/
structure Settings where
  /-- The name of the directories that hold installed packages. -/
  installedDirectory : String
  /-- The names under which a compiler configuration is looked for, in order. -/
  configFiles : List String
  /-- Module names that are builtin besides those of the runtime. -/
  extraBuiltins : List String
  /-- Whether the compiler's way of finding a module is tried. -/
  languageFallback : Bool
  /-- Whether the runtime's way of finding a module is tried. -/
  runtimeFallback : Bool
deriving DecidableEq, Repr, Inhabited

namespace Settings

/-- The settings where nothing is set. -/
def standard : Settings where
  installedDirectory := "node_modules"
  configFiles := ["tsconfig.base.json", "tsconfig.json"]
  extraBuiltins := []
  languageFallback := true
  runtimeFallback := true

/-- Whether the name is that of one directory level. -/
def isDirectoryName (name : String) : Bool :=
  name != "" && !name.toList.contains '/' && !name.toList.contains '\\'

/-- The settings, unless they break a demand. -/
def validate (s : Settings) : Except Fault Settings :=
  if !isDirectoryName s.installedDirectory then
    .error (.invalidField "resolver.installed-dir"
      ("'" ++ s.installedDirectory ++ "' must be a single directory name"))
  else if s.configFiles.any (Text.trim · == "") then
    .error (.invalidField "resolver.tsconfig-files" "File names must not be empty")
  else .ok s

/-- The settings as data. -/
def toData (s : Settings) : Json.Value :=
  .object [("installed-dir", .text s.installedDirectory),
    ("tsconfig-files", .texts s.configFiles), ("extra-builtins", .texts s.extraBuiltins),
    ("language-fallback", .bool s.languageFallback),
    ("runtime-fallback", .bool s.runtimeFallback)]

end Settings

end ImportResolution
