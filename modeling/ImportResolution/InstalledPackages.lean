/-
Installed packages. A bare specifier is matched to a known package through the
descriptor of what is installed for the importing project: its name and its
version both have to agree. The nearest installation decides, even if it
matches nothing.
-/
import ImportResolution.PackageFiles
import ImportResolution.Specifier
import ImportResolution.Workspace.Graph

namespace ImportResolution

/-- The known packages and the way to find out what is installed. -/
structure InstalledPackages where
  workspaceRoot : String
  externals : List External
  /-- The descriptor of a package as installed for a directory, if it is. -/
  locate : FileStore → String → String → Option String

namespace InstalledPackages

/-- What is remembered: the files with their descriptors, and the answers by
package name and context. -/
structure Memory where
  files : PackageFiles
  answers : Memo (String × String) (Option String)
  /-- How often an installation was looked for. -/
  searches : Nat
deriving Repr

/-- Nothing is remembered. -/
def Memory.ofStore (store : FileStore) : Memory := ⟨.ofStore store, .empty, 0⟩

/-- The path of the nearest descriptor that a package has in the installed
directory of a directory or of one above it. -/
def nearestDescriptor? (installed : String) (store : FileStore) (package dir : String) :
    Option String :=
  ((FilePath.ancestors (FilePath.clean dir)).map fun d =>
    FilePath.join (FilePath.join (FilePath.join d installed) package)
      PackageFiles.descriptorName).find? store.isFile

/-- For each declared name, the places of its packages among all packages, in
order. -/
def placesByName (externals : List External) : List (String × List Nat) :=
  externals.zipIdx.foldl (fun places e =>
    Table.put e.1.packageName ((places.lookup e.1.packageName).getD [] ++ [e.2]) places) []

/-- The known packages of a declared name, in order. -/
def named (p : InstalledPackages) (name : String) : List External :=
  (((placesByName p.externals).lookup name).getD []).filterMap (p.externals[·]?)

/-- The first known package that a descriptor describes. -/
def described? (p : InstalledPackages) (descriptor : PackageDescriptor) : Option String := do
  let (name, version) ← descriptor.nameAndVersion?
  let e ← (p.named name).find? (·.describes name version)
  some e.name

/-- Files at work inside the memory. -/
def withFiles {α : Type} (search : Search α) : StateM Memory α := fun m =>
  let (a, files) := search m.files
  (a, { m with files })

/-- The known package that is installed under a name for a context. -/
def lookUp (p : InstalledPackages) (package context : String) :
    StateM Memory (Option String) := do
  let dir := FilePath.clean (FilePath.join p.workspaceRoot context)
  modify fun m => { m with searches := m.searches + 1 }
  match p.locate (← get).files.store package dir with
  | none => return none
  | some path =>
    match ← withFiles (PackageFiles.descriptor? path) with
    | none => return none
    | some descriptor => return p.described? descriptor

/-- The known package that a specifier leads to in a context. All specifiers of
one package share one answer. -/
def resolve (p : InstalledPackages) (specifier context : String) :
    StateM Memory (Option String) := do
  let package := Specifier.packageName specifier
  let (known, answers) := (← get).answers.get? (package, context)
  modify ({ · with answers })
  match known with
  | some answer => return answer
  | none =>
    let answer ← p.lookUp package context
    let (kept, answers) := (← get).answers.insert (package, context) answer
    modify ({ · with answers })
    return kept

end InstalledPackages

end ImportResolution
