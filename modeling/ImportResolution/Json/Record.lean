/-
Records read from documents. A record may be written by name, as an object
whose unknown members are passed over, or by position, as an array of its
fields in declaration order. A known name may stand only once; only a field
with a default may be missing from the end of an array.

A reader is told how deep it may still go: a value nested more deeply than that
is refused. A member that nobody reads may be nested at will and may hold leaves
that stand for nothing, unless the reader is told to look at those too; items of
an array beyond the fields of its record are never looked at.
-/
import ImportResolution.Json.Document
import ImportResolution.Table

namespace ImportResolution.Json

/-- What a reader accepts. -/
structure Allowance where
  /-- How many further arrays and objects may be opened. -/
  depth : Nat
  /-- Whether an array may hold more than the fields of the record it stands for. -/
  surplus : Bool
  /-- Whether a member that nobody reads has to stand for data all the same. -/
  readsAll : Bool
deriving DecidableEq, Repr

/-- The allowance of strict JSON: at most 127 documents inside one another. -/
def Allowance.strict : Allowance where
  depth := 127
  surplus := false
  readsAll := false

/-- A reader of values from documents. -/
abbrev Reader (α : Type) := Allowance → Document → Option α

/-- The allowance inside an array or object. -/
def Allowance.inner? (a : Allowance) : Option Allowance :=
  match a.depth with
  | 0 => none
  | depth + 1 => some { a with depth }

-- =============================================================== values

mutual

/-- The data a document stands for, if none of its leaves stands for nothing and
it is not nested too deeply. -/
def Document.data? : Nat → Document → Option Value
  | _, .null => some .null
  | _, .bool value => some (.bool value)
  | _, .number value => value.map .number
  | _, .text value => value.map .text
  | 0, .array _ => none
  | depth + 1, .array items => (Document.dataItems? depth items).map .array
  | 0, .object _ => none
  | depth + 1, .object members =>
    (Document.dataMembers? depth members).map fun members => .object (Table.ofEntries members)

/-- The data of each item. -/
def Document.dataItems? : Nat → List Document → Option (List Value)
  | _, [] => some []
  | depth, item :: items => do
    let item ← item.data? depth
    let items ← Document.dataItems? depth items
    some (item :: items)

/-- The data of each member. -/
def Document.dataMembers? : Nat → List (Option String × Document) → Option (List (String × Value))
  | _, [] => some []
  | depth, (key, value) :: members => do
    let key ← key
    let value ← value.data? depth
    let members ← Document.dataMembers? depth members
    some ((key, value) :: members)

end

namespace Read

/-- Any data. -/
def value : Reader Value := fun a d => d.data? a.depth

/-- A text. -/
def text : Reader String := fun _ d =>
  match d with
  | .text s => s
  | _ => none

/-- Null for nothing, otherwise a value. -/
def optional {α : Type} (inner : Reader α) : Reader (Option α) := fun a d =>
  match d with
  | .null => some none
  | _ => (inner a d).map some

/-- An array. -/
def list {α : Type} (item : Reader α) : Reader (List α) := fun a d =>
  match d with
  | .array items => a.inner?.bind fun a => items.mapM (item a)
  | _ => none

/-- An object used as a table. -/
def table {α : Type} (value : Reader α) : Reader (List (String × α)) := fun a d =>
  match d with
  | .object members => do
    let a ← a.inner?
    let entries ← members.mapM fun m => do
      let key ← m.1
      let value ← value a m.2
      some (key, value)
    some (Table.ofEntries entries)
  | _ => none

end Read

-- ============================================================== records

/-- The fields given for a record, in the order they were written. -/
structure Fields where
  /-- What a reader of a field accepts. -/
  allowance : Allowance
  /-- Whether they were given by name. -/
  byName : Bool
  given : List (String × Document)
deriving Repr

/-- The members named by one of `names`; none if such a name stands twice, a key
stands for no text, or another member stands for no data where it has to. -/
def knownMembers? (a : Allowance) (names : List String) :
    List (Option String × Document) → Option (List (String × Document))
  | [] => some []
  | (key, value) :: rest => do
    let key ← key
    let known ← knownMembers? a names rest
    if key ∈ names then
      if (known.map Prod.fst).contains key then none else some ((key, value) :: known)
    else if a.readsAll ∧ value.data? a.depth = none then none
    else some known

/-- The fields of a record with the given field names. -/
def Fields.ofDocument? (names : List String) : Reader Fields := fun a d =>
  match d with
  | .object members => do
    let a ← a.inner?
    let known ← knownMembers? a names members
    some ⟨a, true, known⟩
  | .array items => do
    let a ← a.inner?
    if items.length ≤ names.length ∨ a.surplus then some ⟨a, false, names.zip items⟩ else none
  | _ => none

/-- A field that has to be there. -/
def Fields.required {α : Type} (f : Fields) (name : String) (read : Reader α) : Option α :=
  (f.given.lookup name).bind (read f.allowance)

/-- A field that may be null, or absent from a record given by name. -/
def Fields.optional {α : Type} (f : Fields) (name : String) (read : Reader α) :
    Option (Option α) :=
  match f.given.lookup name with
  | some d => Read.optional read f.allowance d
  | none => if f.byName then some none else none

/-- A field with a default. -/
def Fields.defaulted {α : Type} (f : Fields) (name : String) (default : α) (read : Reader α) :
    Option α :=
  match f.given.lookup name with
  | some d => read f.allowance d
  | none => some default

end ImportResolution.Json
