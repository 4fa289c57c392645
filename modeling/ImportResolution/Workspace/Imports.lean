/-
Import records, the literal imports found in source files, and the dependency
edges that are inferred from them. Edges are ordered by source, target and
kind, static before dynamic.
-/
import ImportResolution.Json.Record

namespace ImportResolution

open Json (Value Document Fields Reader)

/-- How a dependency is expressed in the source. -/
inductive EdgeKind where
  /-- It takes effect when the file is loaded. -/
  | static
  /-- It takes effect when the expression is evaluated. -/
  | dynamic
deriving DecidableEq, Repr, Inhabited

namespace EdgeKind

/-- The word for a kind. -/
def text : EdgeKind → String
  | .static => "static"
  | .dynamic => "dynamic"

/-- The kind of a word. -/
def ofText? (s : String) : Option EdgeKind :=
  if s = "static" then some .static
  else if s = "dynamic" then some .dynamic
  else none

/-- A kind in a document: its word, or an object with null under its word. -/
def reader : Reader EdgeKind := fun a d =>
  match d with
  | .text s => s.bind ofText?
  | .object [(key, .null)] => do
    let _ ← a.inner?
    let key ← key
    ofText? key
  | _ => none

/-- Static comes before dynamic. -/
def rank : EdgeKind → Nat
  | .static => 0
  | .dynamic => 1

end EdgeKind

/-- One literal import in a source file. -/
structure ImportRecord where
  /-- The project that owns the file. -/
  source : String
  /-- The importing file, relative to the workspace. -/
  file : String
  specifier : String
  kind : EdgeKind
deriving DecidableEq, Repr, Inhabited

namespace ImportRecord

/-- A record in a document; imports are static unless they say otherwise. -/
def reader : Reader ImportRecord := fun a d => do
  let f ← Fields.ofDocument? ["source", "file", "specifier", "kind"] a d
  let source ← f.required "source" Json.Read.text
  let file ← f.required "file" Json.Read.text
  let specifier ← f.required "specifier" Json.Read.text
  let kind ← f.defaulted "kind" .static EdgeKind.reader
  some ⟨source, file, specifier, kind⟩

/-- The records that a text holds. -/
def listOfText? (s : String) : Option (List ImportRecord) :=
  (Document.ofText? s).bind (Json.Read.list reader .strict)

/-- The record as data. -/
def toData (r : ImportRecord) : Value :=
  .object [("source", .text r.source), ("file", .text r.file),
    ("specifier", .text r.specifier), ("kind", .text r.kind.text)]

end ImportRecord

/-- A dependency between two nodes of the graph. -/
structure Edge where
  source : String
  target : String
  kind : EdgeKind
deriving DecidableEq, Repr, Inhabited

namespace Edge

/-- How an edge is told. -/
def text (e : Edge) : String :=
  e.source ++ " -> " ++ e.target ++ " (" ++ e.kind.text ++ ")"

/-- The edge as data. -/
def toData (e : Edge) : Value :=
  .object [("source", .text e.source), ("target", .text e.target), ("kind", .text e.kind.text)]

/-- Whether one edge comes strictly before another. -/
def before (a b : Edge) : Bool :=
  if a.source = b.source then
    if a.target = b.target then a.kind.rank < b.kind.rank else a.target < b.target
  else a.source < b.source

/-- The edge in its place among sorted edges; an equal edge goes in front of its
equals. -/
def place (e : Edge) : List Edge → List Edge
  | [] => [e]
  | f :: rest => if f.before e then f :: place e rest else e :: f :: rest

/-- The edges in order, repeated ones included. -/
def sort (edges : List Edge) : List Edge :=
  edges.foldr place []

/-- The edge in its place among sorted edges, unless it is there already. -/
def enter (e : Edge) : List Edge → List Edge
  | [] => [e]
  | f :: rest =>
    if e = f then f :: rest
    else if f.before e then f :: enter e rest
    else e :: f :: rest

/-- The edges in order, each once. -/
def collect (edges : List Edge) : List Edge :=
  edges.foldr enter []

end Edge

end ImportResolution
