/-
The files of a workspace together with the package descriptors that have been
read from them. A descriptor is read once, under whatever spelling of its path;
one that cannot be read or understood is remembered as missing.
-/
import ImportResolution.Memo
import ImportResolution.PackageDescriptor

namespace ImportResolution

/-- Files, and the descriptors read from them by cleaned path. -/
structure PackageFiles where
  store : FileStore
  descriptors : Memo String (Option PackageDescriptor)
deriving Repr

/-- A search through the files of a workspace. -/
abbrev Search (α : Type) := StateM PackageFiles α

namespace PackageFiles

/-- The files of a store, with no descriptor read so far. -/
def ofStore (store : FileStore) : PackageFiles := ⟨store, .empty⟩

/-- The name of a descriptor in the directory of its package. -/
def descriptorName : String := "package.json"

/-- Reads the descriptor at a path, whether or not it is remembered. -/
def readDescriptor (path : String) : Search (Option PackageDescriptor) := fun f =>
  match PackageDescriptor.load f.store path with
  | (.ok descriptor, store) => (some descriptor, { f with store })
  | (.error _, store) => (none, { f with store })

/-- The descriptor at a path. -/
def descriptor? (path : String) : Search (Option PackageDescriptor) := do
  let path := FilePath.clean path
  let (known, descriptors) := (← get).descriptors.get? path
  modify ({ · with descriptors })
  match known with
  | some answer => return answer
  | none =>
    let answer ← readDescriptor path
    let (kept, descriptors) := (← get).descriptors.insert path answer
    modify ({ · with descriptors })
    return kept

/-- The descriptor of the package in a directory; nothing is looked up where
there is no such file. -/
def descriptorIn? (dir : String) : Search (Option PackageDescriptor) := do
  let path := FilePath.join dir descriptorName
  if (← get).store.isFile path then descriptor? path else return none

end PackageFiles

end ImportResolution
