/-
The configuration that is in force: what a file says on top of what the files
it extends say. Later files take the place of earlier ones option by option,
and the file itself comes last. A path in an option is seen from the directory
of the file that states it.

A file that is met again on the way from the start to itself ends the search: the
search remembers which files it has entered, and forgets a file when it leaves it.
Two files are taken for the same when their paths have the same components; the
paths of packages are not cleaned, so that this notices a circle through
relative entries at once, while a circle through packages may go on under ever
longer spellings, and then the search has no answer.
-/
import ImportResolution.CompilerConfig.File

namespace ImportResolution

/-- Work that reads files and may fail; what was read stays counted either way. -/
abbrev Reading (α : Type) := ExceptT Fault (StateM FileStore) α

/-- The configuration in force for a workspace. -/
structure CompilerConfig where
  /-- The file that the search started from. -/
  path : String
  /-- The directory that non-relative names start from. -/
  baseUrl : Option String
  aliases : AliasTable
  /-- The directory that the targets of aliases are seen from. -/
  aliasBase : String
deriving DecidableEq, Repr, Inhabited

namespace CompilerConfig

-- =============================================================== options

/-- Options as far as they are known, with their paths anchored. -/
structure Options where
  baseUrl : Option String
  /-- The aliases, with the directory of the file that declares them. -/
  aliases : Option (AliasTable × String)
deriving DecidableEq, Repr, Inhabited

namespace Options

/-- No option is known. -/
def unknown : Options := ⟨none, none⟩

/-- The options that a file in a directory states itself. -/
def stated (file : ConfigFile) (dir : String) : Options where
  baseUrl := file.baseUrl.map fun base => FilePath.clean (FilePath.join dir base)
  aliases := file.aliases.map fun table => (table, dir)

/-- `later` on top of `earlier`; aliases are never merged. -/
def overlay (earlier later : Options) : Options where
  baseUrl := later.baseUrl.or earlier.baseUrl
  aliases := later.aliases.or earlier.aliases

end Options

-- =============================================================== parents

/-- The directory of a file; of a path without one, the empty path. -/
def directoryOf (path : String) : String :=
  (FilePath.parent? path).getD ""

/-- The files that a path may stand for: itself if it names a JSON file, else
with that ending added, the usual file inside it, and itself. -/
def spellings (path : String) : List String :=
  if FilePath.extension? path = some "json" then [path]
  else [path ++ ".json", FilePath.join path "tsconfig.json", path]

/-- The files that an entry may mean, seen from a directory. A relative or
absolute entry is a path; any other is looked for among the packages installed
in the directory and above it. -/
def candidates (installed dir entry : String) : List String :=
  if WorkspacePath.isRelative entry || FilePath.isAbsolute entry then
    spellings (FilePath.clean (FilePath.join dir entry))
  else
    (FilePath.ancestors dir).flatMap fun d =>
      spellings (FilePath.join (FilePath.join d installed) entry)

/-- The file that an entry means. -/
def parentFile? (store : FileStore) (installed dir entry : String) : Option String :=
  (candidates installed dir entry).find? store.isFile

/-- The fault of an entry that means no file. -/
def parentMissing (entry path : String) : Fault :=
  .invalidField "extends" ("Cannot find '" ++ entry ++ "' extended by " ++ path)

-- ================================================================ search

/-- A search on its way through files that extend one another. -/
structure Trail where
  /-- The files that were entered and not left. -/
  visited : List String
  /-- The files from the start to the one that extends the next. -/
  chain : List String
deriving DecidableEq, Repr

namespace Trail

/-- Whether a file was entered and not left. -/
def hasVisited (t : Trail) (path : String) : Bool :=
  t.visited.any (FilePath.same path)

/-- The way on from a file. -/
def enter (t : Trail) (path : String) : Trail :=
  ⟨path :: t.visited, t.chain ++ [path]⟩

/-- The way back from the file that was entered last. -/
def leave (t : Trail) (path : String) : Trail :=
  ⟨t.visited.filter (!FilePath.same path ·), t.chain.dropLast⟩

mutual

/-- The options in force for a file that is met on the way, and the trail that is left
behind: a file is left when its options are known, and after a fault the search stays
where it is. There is no answer when the files extend one another under ever new
spellings. -/
def optionsOf (installed path : String) (t : Trail) (store : FileStore) :
    Option (Except Fault Options × Trail × FileStore) :=
  if t.hasVisited path then
    some (.error (.circularExtends (t.chain ++ [path])), t, store)
  else
    match ConfigFile.load store path with
    | (.error fault, store) => some (.error fault, t.enter path, store)
    | (.ok file, store) => do
      match ← t.enter path |>.inheritedBy installed path file.entries .unknown store with
      | (.error fault, t, store) => some (.error fault, t, store)
      | (.ok inherited, t, store) =>
        some (.ok (inherited.overlay (.stated file (directoryOf path))), t.leave path, store)
partial_fixpoint

/-- What a file inherits: `earlier`, and on top of it the options of the files
that the remaining entries mean. -/
def inheritedBy (installed path : String) (entries : List String) (earlier : Options)
    (t : Trail) (store : FileStore) : Option (Except Fault Options × Trail × FileStore) :=
  match entries with
  | [] => some (.ok earlier, t, store)
  | entry :: rest =>
    match parentFile? store installed (directoryOf path) entry with
    | none => some (.error (parentMissing entry path), t, store)
    | some parent => do
      match ← t |>.optionsOf installed parent store with
      | (.error fault, t, store) => some (.error fault, t, store)
      | (.ok options, t, store) =>
        t |>.inheritedBy installed path rest (earlier.overlay options) store
partial_fixpoint

end

end Trail

/-- The options in force for a file, on the way along `chain`, the files from
the start to the one that extends it. -/
def optionsOf (installed : String) (chain : List String) (path : String) (store : FileStore) :
    Option (Except Fault Options × FileStore) :=
  (Trail.optionsOf installed path ⟨chain, chain⟩ store).map fun (answer, _, store) =>
    (answer, store)

/-- The options in force for the file that a search starts from. Where the search has no
answer the program never returns, and nothing is told. A fault stands in for that answer
so that this is a total function: no search that ends tells it, and it is there wherever
none does (`inForce_eq_extendsTooDeep_iff`). No result rests on it: those on
configurations ask for an answer of the search or are about other outcomes, and those on
locators hold whatever their collaborators answer. -/
def inForce (installed path : String) : Reading Options := fun store =>
  (optionsOf installed [] path store).getD (.error (.extendsTooDeep path), store)

/-- The configuration that a file has with all that it extends. -/
def ofFile (installed path : String) : Reading CompilerConfig := do
  let options ← inForce installed (FilePath.clean path)
  let declared := options.aliases
  return {
    path := FilePath.clean path
    baseUrl := options.baseUrl
    aliases := (declared.map Prod.fst).getD .empty
    aliasBase := (options.baseUrl.or (declared.map Prod.snd)).getD
      (((FilePath.parent? path).map FilePath.clean).getD "") }

/-- The configuration of the nearest file with one of some names, in a directory
or above it; none if there is no such file. -/
def load (installed : String) (names : List String) (root : String) :
    Reading (Option CompilerConfig) := do
  match (← get).findUpwards? names root with
  | none => return none
  | some path => return some (← ofFile installed path)

/-- Whether an alias is declared. -/
def hasAliases (c : CompilerConfig) : Bool :=
  !c.aliases.isEmpty

/-- The directory of the file that the search started from. -/
def directory (c : CompilerConfig) : String :=
  (FilePath.parent? c.path).getD "/"

end CompilerConfig

end ImportResolution
