/-
The program: reads the arguments, takes the files of the workspace into a store,
carries out the command and prints what it tells. Everything that is decided is
decided elsewhere; here files are read and texts are printed.

Taken into the store are all files below the root, the files that stand right
in the directories above it, be it spelled or cleaned, the packages installed in
those directories, and the files that the command line names.
-/
import ImportResolution.CommandLine.Commands

namespace ImportResolution.Program

open CommandLine

-- ================================================================== files

/-- The store with a file that is known to be there; one that holds no text
counts as empty. -/
def takeListed (store : FileStore) (path : String) : IO FileStore := do
  try return store.add path (← IO.FS.readFile path)
  catch _ => return store.add path ""

/-- The store with a file, if there is one that can be read. -/
def takeNamed (store : FileStore) (path : String) : IO FileStore := do
  try return store.add path (← IO.FS.readFile path)
  catch _ => return store

/-- The names of the directories and of the files in a directory. -/
def listing (path : String) : IO (List String × List String) := do
  try
    let mut directories := []
    let mut files := []
    for entry in ← ((← IO.currentDir) / path).readDir do
      if ← entry.path.isDir then directories := entry.fileName :: directories
      else files := entry.fileName :: files
    return (directories, files)
  catch _ => return ([], [])

/-- The store with the files that stand right in a directory. -/
def takeFiles (store : FileStore) (dir : String) : IO FileStore := do
  (← listing dir).2.foldlM (fun store name => takeListed store (FilePath.join dir name)) store

/-- The store with the files in a directory and below it, down to a depth. -/
def takeTree : Nat → FileStore → String → IO FileStore
  | 0, store, _ => return store
  | depth + 1, store, dir => do
    let (directories, files) ← listing dir
    let store ← files.foldlM (fun store name => takeListed store (FilePath.join dir name)) store
    directories.foldlM (fun store name => takeTree depth store (FilePath.join dir name)) store

/-- How deep directories are followed. -/
def deepest : Nat := 64

-- ============================================================ environment

/-- The variables that settings may be given in. -/
def settingVariables : List String :=
  ["LOCUS_INSTALLED_DIR", "LOCUS_TSCONFIG", "LOCUS_TSCONFIG_FILES", "LOCUS_EXTRA_BUILTINS",
    "LOCUS_LANGUAGE_FALLBACK", "LOCUS_RUNTIME_FALLBACK"]

/-- The variables of the environment that are set, with their values. -/
def readEnvironment : IO (List (String × String)) := do
  settingVariables.filterMapM fun name => do
    return (← IO.getEnv name).map fun value => (name, value)

-- ================================================================ program

/-- The store for a command line: enough to find the settings, then all that
the settings say may be looked at. -/
def storeFor (i : Invocation) (current : String) (environment : List (String × String)) :
    IO FileStore := do
  let start := (i.root.map (FilePath.join current)).getD current
  -- the parents of the root as it is spelled are looked at, and those of the cleaned root
  let above := (FilePath.ancestors start ++ FilePath.ancestors (FilePath.clean start)).eraseDups
  let store ← above.foldlM takeFiles FileStore.empty
  let workspace := i.workspace current environment store
  let settings := match (workspace.settings store).1 with
    | .ok (settings, _) => settings
    | .error _ => Settings.standard
  let installed := above.map fun dir => FilePath.join dir settings.installedDirectory
  let store ← installed.foldlM (takeTree deepest) store
  let store ← takeTree deepest store (FilePath.clean workspace.root)
  let store ← takeNamed store workspace.graph
  match i.command with
  | .edges imports _ => takeNamed store (workspace.given imports)
  | _ => return store

/-- What is printed about a command line that is not carried out. -/
def usageText : UsageFault → String
  | .nothingGiven => "nothing is given; name a command: resolve, edges, paths or check"
  | .missingCommand => "a command is missing: resolve, edges, paths or check"
  | .unknownCommand => "there is no such command; there are resolve, edges, paths and check"
  | .missingArgument => "a required argument is missing"
  | .unknownArgument => "an argument is not known"
  | .badValue => "a switch or an argument has no value"
  | .needlessValue => "a switch that takes no value has one"
  | .givenTwice => "a switch is given twice"
  | .helpAsked => "commands: resolve <specifier> --from <file>, edges <imports>, paths <specifier>, check"
  | .versionAsked => "import resolution 1.0"

/-- Prints what stands in the way of a command line. -/
def stop (fault : UsageFault) : IO UInt32 := do
  if fault = .helpAsked ∨ fault = .versionAsked then
    IO.println (usageText fault)
    return 0
  else
    IO.eprintln ("error: " ++ usageText fault)
    return 2

end ImportResolution.Program

open ImportResolution ImportResolution.Program ImportResolution.CommandLine in
/-- Carries out the command line. -/
def main (arguments : List String) : IO UInt32 := do
  match readArguments (← IO.getEnv rootVariable) arguments with
  | .error fault => stop fault
  | .ok invocation =>
    let current := toString (← IO.currentDir)
    let environment ← readEnvironment
    let store ← storeFor invocation current environment
    let outcome := invocation.run current environment store
    IO.print outcome.output
    IO.eprint outcome.errors
    return if outcome.failure.isSome then 1 else 0
