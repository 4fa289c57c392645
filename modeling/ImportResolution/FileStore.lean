/-
A store of text files. Every path is cleaned before it is used, so all
spellings of a path name the same file; directories are there because files
are. The store counts how often each path was read, whether a file was there
or not.
-/
import ImportResolution.FilePath
import ImportResolution.Fault
import ImportResolution.Table

namespace ImportResolution

/-- Files by cleaned path, the directories that hold them, and the readings so
far. -/
structure FileStore where
  files : List (String × String)
  directories : List String
  readings : List (String × Nat)
  totalReadings : Nat
deriving Repr

namespace FileStore

/-- The store without files. -/
def empty : FileStore := ⟨[], [], [], 0⟩

/-- The directories with `outwards`, a directory and its parents, entered until
one is met that is already known: its parents are known too. -/
def enter (known : List String) : List String → List String
  | [] => known
  | dir :: outwards => if dir ∈ known then known else enter (dir :: known) outwards

/-- The store with a file added or replaced. -/
def add (s : FileStore) (path content : String) : FileStore :=
  let path := FilePath.clean path
  { s with
    files := Table.put path content s.files
    directories := enter s.directories (FilePath.ancestors path).tail }

/-- The store with files added in order. -/
def ofFiles (files : List (String × String)) : FileStore :=
  files.foldl (fun s f => s.add f.1 f.2) empty

/-- The content of a file. -/
def content? (s : FileStore) (path : String) : Option String :=
  s.files.lookup (FilePath.clean path)

/-- Whether a file is there. -/
def isFile (s : FileStore) (path : String) : Bool :=
  (s.content? path).isSome

/-- Whether a directory is there. -/
def isDirectory (s : FileStore) (path : String) : Bool :=
  s.directories.contains (FilePath.clean path)

/-- The first file there is, in a directory or else in the nearest directory
above it, under one of some names. -/
def findUpwards? (s : FileStore) (names : List String) (dir : String) : Option String :=
  (FilePath.ancestors dir).findSome? fun d =>
    (names.map (FilePath.join d)).find? s.isFile

/-- How often a path was read. -/
def readingsOf (s : FileStore) (path : String) : Nat :=
  (s.readings.lookup (FilePath.clean path)).getD 0

/-- The store after one more reading of a path. -/
def countReading (s : FileStore) (path : String) : FileStore :=
  { s with
    readings := Table.put (FilePath.clean path) (s.readingsOf path + 1) s.readings
    totalReadings := s.totalReadings + 1 }

/-- The fault of reading a file that is not there. -/
def missing (path : String) : Fault :=
  .unreadable ("Failed to read " ++ path) "no such file" .missing

/-- The content of a file, and the store with the reading counted. -/
def read (s : FileStore) (path : String) : Except Fault String × FileStore :=
  let answer := match s.content? path with
    | some content => .ok content
    | none => .error (missing (FilePath.clean path))
  (answer, s.countReading path)

/-- What a file holds once it is decoded, and the store with the reading
counted. -/
def load {α : Type} (decode : String → Option α) (malformed : String → Fault) (s : FileStore)
    (path : String) : Except Fault α × FileStore :=
  match s.read path with
  | (.error fault, s) => (.error fault, s)
  | (.ok content, s) =>
    match decode content with
    | some a => (.ok a, s)
    | none => (.error (malformed path), s)

end FileStore

end ImportResolution
