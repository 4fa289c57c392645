/-
A tree of directories and files in which a path is followed step by step, as an
operating system does it: each name is looked up in the directory reached so
far, `..` leads to the directory above, and a path that ends in a slash must
lead to a directory. Unlike cleaning a path, following it fails when a
directory on the way is not there. Names and paths have a greatest length, and
no path holds the character zero.
-/
import ImportResolution.Fault
import ImportResolution.Table
import ImportResolution.Text.Position
import ImportResolution.Text.Segments

namespace ImportResolution

/-- A file, or a directory with its entries. -/
inductive DirectoryTree where
  | file (content : String)
  | directory (entries : List (String × DirectoryTree))
deriving Inhabited

namespace DirectoryTree

/-- The directory without entries. -/
def empty : DirectoryTree := .directory []

/-- The entries; a file has none. -/
def entries : DirectoryTree → List (String × DirectoryTree)
  | .file _ => []
  | .directory entries => entries

/-- The tree with a directory at a path of names, made where it is missing. -/
def makeDirectory : List String → DirectoryTree → DirectoryTree
  | [], tree => tree
  | name :: path, tree =>
    let below := (tree.entries.lookup name).getD empty
    .directory (Table.put name (makeDirectory path below) tree.entries)

/-- The tree with a file at a path of names, directories made where needed. -/
def insert (content : String) : List String → DirectoryTree → DirectoryTree
  | [], _ => .file content
  | name :: path, tree =>
    let below := (tree.entries.lookup name).getD empty
    .directory (Table.put name (insert content path below) tree.entries)

/-- The tree with a file at the end of some segments, starting from a directory
whose names are `here`, innermost first. Directories on the way are made where
they are missing, also those that `..` leaves again. -/
def placeAlong (content : String) (here : List String) :
    List String → DirectoryTree → DirectoryTree
  | [], tree => tree
  | [name], tree => insert content (name :: here).reverse tree
  | segment :: rest, tree =>
    if segment = "" ∨ segment = "." then placeAlong content here rest tree
    else if segment = ".." then placeAlong content here.tail rest tree
    else
      placeAlong content (segment :: here) rest (makeDirectory (segment :: here).reverse tree)

/-- The tree with a file at a path. -/
def place (content path : String) (root : DirectoryTree) : DirectoryTree :=
  placeAlong content [] (Text.pieces '/' path) root

/-- The greatest length of a name, in bytes. -/
def longestName : Nat := 255

/-- The greatest length of a path, in bytes. -/
def longestPath : Nat := 4095

/-- Why a name that a directory does not hold is not reached. -/
def absence (name : String) : ReadFailure :=
  if Text.byteSize name.toList ≤ longestName then .missing else .other

/-- What is reached along the segments of a path from the innermost of the
directories `here`; the directories above it are kept for `..`. -/
def follow (here : List DirectoryTree) : List String → Except ReadFailure DirectoryTree
  | [] =>
    match here with
    | tree :: _ => .ok tree
    | [] => .error .missing
  | segment :: rest =>
    match here with
    | [] => .error .missing
    | .file _ :: _ => .error .other
    | .directory entries :: above =>
      if segment = "" ∨ segment = "." then follow here rest
      else if segment = ".." then
        follow (if above = [] then here else above) rest
      else
        match entries.lookup segment with
        | some tree => follow (tree :: here) rest
        | none => .error (absence segment)

/-- What a path leads to from the root. -/
def locate (root : DirectoryTree) (path : String) : Except ReadFailure DirectoryTree :=
  let cs := path.toList
  if cs.contains '\x00' ∨ longestPath < Text.byteSize cs then .error .other
  else follow [root] (Text.pieces '/' path)

/-- Whether a path leads to a file. -/
def isFile (root : DirectoryTree) (path : String) : Bool :=
  match root.locate path with
  | .ok (.file _) => true
  | _ => false

/-- Whether a path leads to a directory. -/
def isDirectory (root : DirectoryTree) (path : String) : Bool :=
  match root.locate path with
  | .ok (.directory _) => true
  | _ => false

/-- The account of a failed reading. -/
def causeOf : ReadFailure → String
  | .missing => "No such file or directory"
  | .denied => "Permission denied"
  | .other => "Not a file"

/-- The content of the file that a path leads to. -/
def read (root : DirectoryTree) (path : String) : Except Fault String :=
  match root.locate path with
  | .ok (.file content) => .ok content
  | .ok (.directory _) => .error (.unreadable ("Failed to read " ++ path) (causeOf .other) .other)
  | .error failure => .error (.unreadable ("Failed to read " ++ path) (causeOf failure) failure)

end DirectoryTree

end ImportResolution
