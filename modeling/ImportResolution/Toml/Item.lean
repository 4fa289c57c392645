/-
The data of a settings document, and how keys and headers build it up. Every
item knows the place where it is written, save a table that is only implied by
longer keys or headers. A key may be given once: neither a second value, nor a
header for a table that already has one, nor a key that reaches into a finished
table is taken.
-/
import ImportResolution.Toml.Scan

namespace ImportResolution.Toml

/-- A key and the place where it is written. -/
structure Key where
  text : String
  place : Place
deriving Repr, Inhabited

/-- How a table came about. -/
inductive Origin where
  /-- By a header of its own, or as the whole document. -/
  | header
  /-- By a header of a table inside it. -/
  | implied
  /-- By a key with several parts. -/
  | dotted
  /-- Between braces. -/
  | braces
deriving DecidableEq, Repr

/-- An item of a document. -/
inductive Item where
  | text (place : Place) (value : String)
  | truth (place : Place) (value : Bool)
  | number (place : Place)
  /-- A date, a time of day, or both. -/
  | date (place : Place)
  | list (place : Place) (items : List Item)
  | table (place : Option Place) (origin : Origin) (entries : List (Key × Item))
  /-- Tables under one repeated header. -/
  | tables (items : List Item)
deriving Inhabited

namespace Item

/-- Where the item is written. -/
def place? : Item → Option Place
  | .text place _ => some place
  | .truth place _ => some place
  | .number place => some place
  | .date place => some place
  | .list place _ => some place
  | .table place _ _ => place
  | .tables (.table place _ _ :: _) => place
  | .tables _ => none

/-- The table of the whole document before anything is read. -/
def root : Item := .table none .header []

-- ============================================================== entries

/-- The item under a key. -/
def find? (key : String) (entries : List (Key × Item)) : Option Item :=
  (entries.find? (·.1.text == key)).map Prod.snd

/-- The entries with the item under a key replaced. -/
def replace (key : String) (item : Item) (entries : List (Key × Item)) : List (Key × Item) :=
  entries.map fun e => if e.1.text = key then (e.1, item) else e

/-- The last of some items changed. -/
def changeLast? (change : Item → Option Item) : List Item → Option (List Item)
  | [] => none
  | [item] => (change item).map ([·])
  | item :: items => (changeLast? change items).map (item :: ·)

/-- The item with the table at the end of a path changed. Missing tables are
made on the way. A path of keys, unlike one of headers, does not enter a table
that has a header; neither enters a table between braces, and of repeated tables
the last one is entered. -/
def changeAt? (made : Origin) (change : Item → Option Item) : List Key → Item → Option Item
  | [], item => change item
  | key :: path, .table place origin entries =>
    match find? key.text entries with
    | none =>
      (changeAt? made change path (.table none made [])).map fun item =>
        .table place origin (entries ++ [(key, item)])
    | some (.table inner innerOrigin innerEntries) =>
      if innerOrigin = .braces ∨ (made = .dotted ∧ innerOrigin = .header) then none
      else
        (changeAt? made change path (.table inner innerOrigin innerEntries)).map fun item =>
          .table place origin (replace key.text item entries)
    | some (.tables items) =>
      (changeLast? (changeAt? made change path) items).map fun items =>
        .table place origin (replace key.text (.tables items) entries)
    | some _ => none
  | _ :: _, _ => none

-- ============================================================ insertions

/-- The table with a new entry; none if the key is taken. A key with several
parts belongs in a table made by such keys, a key with one part does not. -/
def addNew? (severalParts : Bool) (key : Key) (value : Item) : Item → Option Item
  | .table place origin entries =>
    if (origin == .dotted) != severalParts then none
    else if (find? key.text entries).isSome then none
    else some (.table place origin (entries ++ [(key, value)]))
  | _ => none

/-- The table with a value under a path of keys; none if the path is taken. -/
def addValue? (table : Item) (path : List Key) (value : Item) : Option Item :=
  match path.getLast? with
  | none => none
  | some key =>
    changeAt? .dotted (addNew? (1 < path.length) key value) path.dropLast table

/-- The table with a header for `key`; none if the key has a table with a header
or a value. An implied table moves to the end with what it holds. -/
def openTable? (key : Key) (start : Place) : Item → Option Item
  | .table place origin entries =>
    match find? key.text entries with
    | none => some (.table place origin (entries ++ [(key, .table (some start) .header [])]))
    | some (.table _ .implied inner) =>
      let others := entries.filter (·.1.text ≠ key.text)
      some (.table place origin (others ++ [(key, .table (some start) .header inner)]))
    | some _ => none
  | _ => none

/-- The table with one more of the repeated tables of `key`. -/
def openNext? (key : Key) (start : Place) : Item → Option Item
  | .table place origin entries =>
    let next : Item := .table (some start) .header []
    match find? key.text entries with
    | none => some (.table place origin (entries ++ [(key, .tables [next])]))
    | some (.tables items) =>
      some (.table place origin (replace key.text (.tables (items ++ [next])) entries))
    | some _ => none
  | _ => none

/-- The document with a header read: `repeated` tells the header of one of
several tables. -/
def addHeader? (document : Item) (repeated : Bool) (path : List Key) (start : Place) :
    Option Item :=
  match path.getLast? with
  | none => none
  | some key =>
    changeAt? .implied (if repeated then openNext? key start else openTable? key start)
      path.dropLast document

/-- The document with a value read below the header at `current`. -/
def addBelow? (document : Item) (current path : List Key) (value : Item) : Option Item :=
  changeAt? .implied (fun table => table.addValue? path value) current document

end Item

end ImportResolution.Toml
