/-
Configuration files of a compiler, as far as module resolution reads them: the
files they extend, the base of non-relative names, and the alias table. They
are JSON5 documents.
-/
import ImportResolution.AliasTable
import ImportResolution.FileStore
import ImportResolution.Json.Record
import ImportResolution.Json5.Document

namespace ImportResolution

open Json (Value Fields Reader Read.text Read.list Read.table)

/-- What a configuration file extends: one file, or a list of files. -/
inductive Extends where
  | one (entry : String)
  | many (entries : List String)
deriving DecidableEq, Repr

namespace Extends

/-- The entries in order. -/
def entries : Extends → List String
  | .one entry => [entry]
  | .many entries => entries

/-- What a file extends, in a document. -/
def reader : Reader Extends := fun a d =>
  match Read.text a d with
  | some entry => some (.one entry)
  | none => (Read.list Read.text a d).map .many

/-- What a file extends, as data. -/
def toData : Extends → Value
  | .one entry => .text entry
  | .many entries => Value.texts entries

end Extends

/-- A configuration file. -/
structure ConfigFile where
  parents : Option Extends
  /-- The directory that non-relative names start from. -/
  baseUrl : Option String
  aliases : Option AliasTable
deriving DecidableEq, Repr, Inhabited

namespace ConfigFile

/-- What the file extends, in order. -/
def entries (c : ConfigFile) : List String :=
  (c.parents.map Extends.entries).getD []

/-- The options of a document: base URL and aliases. -/
def optionsReader : Reader (Option String × Option AliasTable) := fun a d => do
  let f ← Fields.ofDocument? ["baseUrl", "paths"] a d
  let baseUrl ← f.optional "baseUrl" Read.text
  let entries ← f.optional "paths" (Read.table (Read.list Read.text))
  some (baseUrl, entries.map AliasTable.mk)

/-- A configuration file in a document. -/
def reader : Reader ConfigFile := fun a d => do
  let f ← Fields.ofDocument? ["extends", "compilerOptions"] a d
  let parents ← f.optional "extends" Extends.reader
  let (baseUrl, aliases) ← f.defaulted "compilerOptions" (none, none) optionsReader
  some ⟨parents, baseUrl, aliases⟩

/-- JSON5 sets no bound on nesting. A record given as an array may hold more than
its fields, and nobody looks at the rest; the members of an object are all looked
at. -/
def allowance (text : String) : Json.Allowance where
  depth := text.length
  surplus := true
  readsAll := true

/-- The configuration file that a text holds. -/
def ofText? (text : String) : Option ConfigFile :=
  (Json5.ofText? text).bind (reader (allowance text))

/-- A member that is written only when it is there. -/
def member (key : String) (value : Option Value) : List (String × Value) :=
  (value.map fun v => (key, v)).toList

/-- The aliases as data. -/
def aliasData (t : AliasTable) : Value :=
  .object (t.entries.map fun e => (e.1, Value.texts e.2))

/-- The configuration file as data. -/
def toData (c : ConfigFile) : Value :=
  .object <|
    member "extends" (c.parents.map Extends.toData) ++
      [("compilerOptions", .object <|
        member "baseUrl" (c.baseUrl.map .text) ++ member "paths" (c.aliases.map aliasData))]

/-- The configuration file as compact text. -/
def toText (c : ConfigFile) : String := c.toData.toText

/-- The fault of a text that is no configuration file. -/
def malformed (path : String) : Fault :=
  .json path "not a compiler configuration"

/-- The configuration file that a text holds. -/
def parse (text : String) : Except Fault ConfigFile :=
  match ofText? text with
  | some c => .ok c
  | none => .error (malformed "tsconfig.json")

/-- The configuration file at a path of the store. -/
def load : FileStore → String → Except Fault ConfigFile × FileStore :=
  FileStore.load ofText? malformed

end ConfigFile

end ImportResolution
