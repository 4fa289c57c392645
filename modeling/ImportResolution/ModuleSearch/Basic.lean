/-
Searching for the file that a module specifier means. What is common to the
ways of searching: a path may stand for a file under some other spelling, or
for a directory whose package descriptor or index file says where to go on.
-/
import ImportResolution.PackageFiles
import ImportResolution.Specifier
import ImportResolution.WorkspacePath

namespace ImportResolution

/-- A way to find the file that a specifier means in an importing file. -/
abbrev ModuleResolver := String → String → Search (Except Fault String)

namespace ModuleSearch

-- =============================================================== search

/-- The first of some paths that is a file. -/
def firstFile? (paths : List String) : Search (Option String) := fun f =>
  (paths.find? f.store.isFile, f)

/-- The result of the first of some searches that finds something; later ones
are not made. -/
def firstFound? {α : Type} : List (Search (Option α)) → Search (Option α)
  | [] => return none
  | search :: rest => do
    match ← search with
    | some a => return some a
    | none => firstFound? rest

/-- Whether a directory is there. -/
def hasDirectory (path : String) : Search Bool :=
  return (← get).store.isDirectory path

-- ============================================================ spellings

/-- A path with each of some endings. -/
def withEndings (stem : String) (endings : List String) : List String :=
  endings.map (stem ++ ·)

/-- How paths are read that need not name a file in full. -/
structure Spelling where
  /-- The files that a path may stand for, in order. -/
  files : String → List String
  /-- The endings of an index file. -/
  endings : List String
  /-- The entries that a descriptor offers, in order. -/
  entries : PackageDescriptor → List String
  /-- Whether a directory is looked into only where it is known to be one. -/
  asksFirst : Bool

/-- The index files of a directory. -/
def Spelling.indexes (s : Spelling) (dir : String) : List String :=
  withEndings (FilePath.join dir "index") s.endings

/-- The files that an entry of the package in a directory may mean. -/
def Spelling.entryFiles (s : Spelling) (dir entry : String) : List String :=
  let path := FilePath.clean (FilePath.join dir entry)
  s.files path ++ s.indexes path

/-- Whether a path is looked into as a directory. -/
def looksInto (s : Spelling) (dir : String) : Search Bool :=
  if s.asksFirst then hasDirectory dir else return true

/-- The file that a directory stands for: the first entry of its package that
leads to one, or else its index file. -/
def loadDirectory (s : Spelling) (dir : String) : Search (Option String) := do
  unless ← looksInto s dir do return none
  let entries := match ← PackageFiles.descriptorIn? dir with
    | some descriptor => s.entries descriptor
    | none => []
  firstFile? (entries.flatMap (s.entryFiles dir) ++ s.indexes dir)

/-- The file that a path stands for, as a file or else as a directory. -/
def load (s : Spelling) (path : String) : Search (Option String) :=
  firstFound? [firstFile? (s.files path), loadDirectory s path]

-- ============================================================ specifiers

/-- The directory of an importing file. -/
def importingDirectory (file : String) : String :=
  (FilePath.parent? file).getD "/"

/-- Whether a specifier is a path, seen from the importing directory or from the
root of the file system. -/
def isPath (specifier : String) : Bool :=
  WorkspacePath.isRelative specifier || FilePath.isAbsolute specifier

/-- What is found, or the fault of a specifier that leads to nothing. -/
def orNotFound (specifier : String) (found : Option String) : Except Fault String :=
  match found with
  | some path => .ok path
  | none => .error (.moduleNotFound specifier)

end ModuleSearch

end ImportResolution
