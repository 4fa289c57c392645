/-
Package descriptors: the fields of a package's `package.json` that decide what
an import of the package leads to. Everything else in the file is passed over.
-/
import ImportResolution.Json.Record
import ImportResolution.FileStore

namespace ImportResolution

/-- The fields of a package descriptor that resolution reads. -/
structure PackageDescriptor where
  name : Option String
  version : Option String
  /-- The entry file. -/
  main : Option String
  /-- The entry of the type declarations. -/
  types : Option String
  /-- An older name of the entry of the type declarations. -/
  typings : Option String
  /-- The module format of the package's files. -/
  moduleType : Option String
  /-- The targets that the package offers, by subpath and condition. -/
  entryPoints : Option Json.Value
deriving Repr, Inhabited

namespace PackageDescriptor

open Json (Value Fields Reader Read.text Read.value)

-- ====================================================== reading and writing

/-- The field names in declaration order. -/
def fieldNames : List String :=
  ["name", "version", "main", "types", "typings", "type", "exports"]

/-- A descriptor in a document; every field may be null or absent. -/
def reader : Reader PackageDescriptor := fun a d => do
  let f ← Fields.ofDocument? fieldNames a d
  let name ← f.optional "name" Read.text
  let version ← f.optional "version" Read.text
  let main ← f.optional "main" Read.text
  let types ← f.optional "types" Read.text
  let typings ← f.optional "typings" Read.text
  let moduleType ← f.optional "type" Read.text
  let entryPoints ← f.optional "exports" Read.value
  some ⟨name, version, main, types, typings, moduleType, entryPoints⟩

/-- The descriptor that a text holds. -/
def ofText? (s : String) : Option PackageDescriptor :=
  (Json.Document.ofText? s).bind (reader .strict)

/-- A field that is written only when it is there. -/
def member (key : String) (value : Option Value) : List (String × Value) :=
  match value with
  | some v => [(key, v)]
  | none => []

/-- The descriptor as data, fields in declaration order, absent ones left out. -/
def toData (p : PackageDescriptor) : Value :=
  .object <|
    member "name" (p.name.map .text) ++ member "version" (p.version.map .text) ++
    member "main" (p.main.map .text) ++ member "types" (p.types.map .text) ++
    member "typings" (p.typings.map .text) ++ member "type" (p.moduleType.map .text) ++
    member "exports" p.entryPoints

/-- The descriptor as compact text. -/
def toText (p : PackageDescriptor) : String := p.toData.toText

/-- The fault of a text that is no descriptor. -/
def malformed (path : String) : Fault :=
  .json path "not a package descriptor"

/-- The descriptor that a text holds. -/
def parse (s : String) : Except Fault PackageDescriptor :=
  match ofText? s with
  | some p => .ok p
  | none => .error (malformed "package.json")

/-- The descriptor in a file of the store. -/
def load : FileStore → String → Except Fault PackageDescriptor × FileStore :=
  FileStore.load ofText? malformed

-- =============================================================== answers

/-- The declared name and version, when both are there. -/
def nameAndVersion? (p : PackageDescriptor) : Option (String × String) := do
  let name ← p.name
  let version ← p.version
  some (name, version)

/-- The entry of the type declarations under either of its names. -/
def typesEntry? (p : PackageDescriptor) : Option String :=
  p.types.or p.typings

/-- Whether a key of a condition table applies. -/
def applies (conditions : List String) (key : String) : Bool :=
  key == "default" || conditions.contains key

mutual

/-- The first target of an entry, in declaration order. -/
def target? (conditions : List String) : Value → Option String
  | .text path => some path
  | .array items => targetOfItems? conditions items
  | .object members => targetOfMembers? conditions members
  | _ => none

/-- The first target among alternatives. -/
def targetOfItems? (conditions : List String) : List Value → Option String
  | [] => none
  | item :: items => (target? conditions item).or (targetOfItems? conditions items)

/-- The first target among the conditions that apply. -/
def targetOfMembers? (conditions : List String) : List (String × Value) → Option String
  | [] => none
  | (key, value) :: members =>
    (if applies conditions key then target? conditions value else none).or
      (targetOfMembers? conditions members)

end

/-- Whether an entry point table is keyed by subpaths. -/
def hasSubpaths (members : List (String × Value)) : Bool :=
  members.any fun m => Text.startsWith m.1 "."

/-- The target of the package itself under the given conditions. A table with
some subpath key offers the package under `.`; any other value is the offer. -/
def rootTarget? (p : PackageDescriptor) (conditions : List String) : Option String :=
  match p.entryPoints with
  | none => none
  | some (.object members) =>
    if hasSubpaths members then (members.lookup ".").bind (target? conditions)
    else target? conditions (.object members)
  | some offer => target? conditions offer

end PackageDescriptor

end ImportResolution
