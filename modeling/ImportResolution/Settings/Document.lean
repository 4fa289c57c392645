/-
Settings in a document with one table, `resolver`. Unknown keys are passed over
and absent ones keep their standard values. A value of the wrong kind is
reported where it is written; of several, the first in the document counts.
-/
import ImportResolution.Settings.Basic
import ImportResolution.Text.Position
import ImportResolution.Toml.Document

namespace ImportResolution.Settings

open Toml (Item Key Place)

-- ============================================================== reading

/-- A value of some kind at an item, or where the item is written; `fallback` is
the place of an item that has none of its own. -/
def textOf (fallback : Place) : Item → Except Place String
  | .text _ value => .ok value
  | item => .error (item.place?.getD fallback)

/-- A truth value. -/
def truthOf (fallback : Place) : Item → Except Place Bool
  | .truth _ value => .ok value
  | item => .error (item.place?.getD fallback)

/-- A list of texts. -/
def textsOf (fallback : Place) : Item → Except Place (List String)
  | .list _ items => items.mapM (textOf fallback)
  | .tables items => items.mapM (textOf fallback)
  | item => .error (item.place?.getD fallback)

/-- The setting keys in the order in which a list gives them. -/
def keys : List String :=
  ["installed-dir", "tsconfig-files", "extra-builtins", "language-fallback", "runtime-fallback"]

/-- The settings with one read from an item. -/
def readSetting (s : Settings) (key : String) (fallback : Place) (item : Item) :
    Except Place Settings :=
  if key = "installed-dir" then do return { s with installedDirectory := ← textOf fallback item }
  else if key = "tsconfig-files" then do return { s with configFiles := ← textsOf fallback item }
  else if key = "extra-builtins" then do return { s with extraBuiltins := ← textsOf fallback item }
  else if key = "language-fallback" then do
    return { s with languageFallback := ← truthOf fallback item }
  else if key = "runtime-fallback" then do
    return { s with runtimeFallback := ← truthOf fallback item }
  else .ok s

/-- The settings in a list of their values. -/
def readList (fallback : Place) (items : List Item) : Except Place Settings :=
  (keys.zip items).foldlM (fun s e => readSetting s e.1 fallback e.2) standard

/-- The settings in the item under `resolver`. A date counts as a table of its
parts, none of which is a setting. -/
def ofItem (fallback : Place) : Item → Except Place Settings
  | .table _ _ entries =>
    entries.foldlM (fun s e => readSetting s e.1.text e.1.place e.2) standard
  | .list _ items => readList fallback items
  | .tables items => readList fallback items
  | .date _ => .ok standard
  | item => .error (item.place?.getD fallback)

/-- The settings in a document. -/
def ofDocument : Item → Except Place Settings
  | .table _ _ entries =>
    match entries.find? (·.1.text == "resolver") with
    | some (key, item) => ofItem key.place item
    | none => .ok standard
  | _ => .ok standard

/-- The byte offset of a place in a text. -/
def offsetOf (text place : List Char) : Nat :=
  Text.byteSize text - Text.byteSize place

/-- The settings that a text holds, checked. -/
def parse (s : String) : Except Fault Settings :=
  match (Toml.document s.toList).bind ofDocument with
  | .ok settings => settings.validate
  | .error place =>
    let (line, column) := Text.lineColumn s (offsetOf s.toList place)
    .error (.settingsSyntax none "not a settings document" line column)

-- ============================================================== writing

/-- A list of texts: on one line up to one item, otherwise with a line for each
item. -/
def writtenList : List String → List Char
  | [] => ['[', ']']
  | [item] => '[' :: Toml.written item ++ [']']
  | items =>
    '[' :: '\n' ::
      items.flatMap (fun item => [' ', ' ', ' ', ' '] ++ Toml.written item ++ [',', '\n']) ++ [']']

/-- One line with a key and its value. -/
def writtenLine (key : String) (value : List Char) : List Char :=
  key.toList ++ [' ', '=', ' '] ++ value ++ ['\n']

/-- The settings as a document. -/
def toText (s : Settings) : String :=
  String.ofList <|
    "[resolver]\n".toList ++
    writtenLine "installed-dir" (Toml.written s.installedDirectory) ++
    writtenLine "tsconfig-files" (writtenList s.configFiles) ++
    writtenLine "extra-builtins" (writtenList s.extraBuiltins) ++
    writtenLine "language-fallback" (Json.truth s.languageFallback) ++
    writtenLine "runtime-fallback" (Json.truth s.runtimeFallback)

end ImportResolution.Settings
