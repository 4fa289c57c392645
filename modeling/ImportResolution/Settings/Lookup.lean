/-
Finding the settings that govern a directory: the nearest settings file in the
directory or above it, or the standard settings where there is none.
-/
import ImportResolution.FileStore
import ImportResolution.Settings.Document
import ImportResolution.Settings.Overrides

namespace ImportResolution.Settings

/-- The name of a settings file. -/
def fileName : String := "locus.toml"

/-- A file of some name in a directory or in the nearest one above it. -/
def findFile? (store : FileStore) (directory name : String) : Option String :=
  store.findUpwards? [name] directory

/-- The settings in a file. -/
def ofFile (store : FileStore) (path : String) : Except Fault Settings × FileStore :=
  match store.read path with
  | (.error fault, store) => (.error fault, store)
  | (.ok content, store) =>
    match parse content with
    | .error (.settingsSyntax _ detail line column) =>
      (.error (.settingsSyntax (some path) detail line column), store)
    | answer => (answer, store)

/-- The settings that govern a directory, and the file they are in. -/
def load (store : FileStore) (directory : String) :
    Except Fault (Settings × Option String) × FileStore :=
  match findFile? store directory fileName with
  | none => (.ok (standard, none), store)
  | some path =>
    let (answer, store) := ofFile store path
    (answer.map fun settings => (settings, some path), store)

/-- The settings that govern a directory under an environment and a command
line, and the file they are in. -/
def loadLayered (store : FileStore) (directory : String)
    (environment options : List (String × String)) :
    Except Fault (Settings × Option String) × FileStore :=
  let (answer, store) := load store directory
  (do
    let (settings, file) ← answer
    let settings ← settings.layered environment options
    return (settings, file), store)

/-- The directory of the settings file that governs a directory, or the
directory itself. -/
def workspaceRoot (store : FileStore) (directory : String) : String :=
  match findFile? store directory fileName with
  | some path => (FilePath.parent? path).getD directory
  | none => directory

end ImportResolution.Settings
