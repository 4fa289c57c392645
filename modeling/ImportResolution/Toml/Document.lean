/-
Settings documents: lines with keys and values, under headers that name tables.
Reading gives the document's table, or the place of the first offence: where a
text stops being a document, or the start of the key or header that is taken.
-/
import ImportResolution.Toml.Quoted
import ImportResolution.Toml.Scalar
import ImportResolution.Toml.Item

namespace ImportResolution.Toml

open Scan

-- =============================================================== blanks

/-- Gaps within a line. -/
def gaps : Scan Unit := skip isGap

/-- The end of a line. What stands there instead has been looked at, and a
carriage return before it. -/
def lineEnd : Scan Unit := fun cs =>
  match afterLineEnd? cs with
  | some rest => .done () rest
  | none => .missed (afterByte cs)

/-- What a comment may hold. -/
def isCommentChar (c : Char) : Bool := !isControl c

/-- A comment up to the end of its line. -/
def comment : Scan Unit := do
  word ['#']
  skip isCommentChar

/-- The end of a line or of the text. -/
def lineOrTextEnd : Scan Unit := orElse lineEnd atEnd

/-- What may follow a value or header on its line. -/
def lineTrail : Scan Unit := do
  gaps
  let _ ← maybe comment
  lineOrTextEnd

/-- Gaps, line ends and comments with their line ends. The fuel is the number of
characters left. -/
def blanksWithin : Nat → Scan Unit
  | 0 => gaps
  | fuel + 1 => do
    gaps
    match ← here with
    | '#' :: _ =>
      comment
      lineEnd
      blanksWithin fuel
    | '\n' :: _ | '\r' :: _ =>
      lineEnd
      blanksWithin fuel
    | _ => Pure.pure ()

/-- Blanks over several lines. -/
def blanks : Scan Unit := fun cs => blanksWithin cs.length cs

-- ================================================================= keys

/-- What a key without quotes consists of. -/
def isBareChar (c : Char) : Bool :=
  ('a' ≤ c && c ≤ 'z') || ('A' ≤ c && c ≤ 'Z') || Decimal.isDigit c || c = '-' || c = '_'

/-- One part of a key. -/
def keyPart : Scan Key := do
  let place ← here
  match place with
  | '"' :: _ => return ⟨String.ofList (← basicString), place⟩
  | '\'' :: _ => return ⟨String.ofList (← literalString), place⟩
  | _ => return ⟨String.ofList (← taken (skipSome isBareChar)), place⟩

/-- How many parts of a key, or nested values, are one too many. -/
def depthLimit : Nat := 80

/-- A key: parts with points between them, and gaps around each part. -/
def key : Scan (List Key) :=
  which
    (separated
      (do
        gaps
        let part ← keyPart
        gaps
        return part)
      (word ['.']))
    fun parts => parts.length < depthLimit

-- =============================================================== values

/-- The entries of a table between braces put together; none if a key is taken. -/
def braced? (place : Place) (entries : List (List Key × Item)) : Option Item :=
  entries.foldlM (fun table e => table.addValue? e.1 e.2) (.table (some place) .braces [])

mutual

/-- A value. Each nested value takes one unit of fuel. -/
def value (depth : Nat) : Nat → Scan Item
  | 0, cs => .failed cs
  | fuel + 1, cs =>
    match cs with
    | [] => .missed cs
    | c :: _ =>
      if c = '"' ∨ c = '\'' then (anyString.andThen fun text => Scan.pure (.text cs text)) cs
      else if c = '[' then
        if depthLimit ≤ depth + 1 then .failed cs else list depth fuel cs
      else if c = '\x7b' then
        if depthLimit ≤ depth + 1 then .failed cs else braces depth fuel cs
      else if c = 't' then ((commit (word ['t', 'r', 'u', 'e'])).giving (.truth cs true)) cs
      else if c = 'f' then ((commit (word ['f', 'a', 'l', 's', 'e'])).giving (.truth cs false)) cs
      else if isSign c ∨ Decimal.isDigit c then
        ((dateTime.giving (.date cs)).orElse (number.giving (.number cs))) cs
      else if c = '_' then (integer.giving (.number cs)) cs
      else if c = '.' then (float.giving (.number cs)) cs
      else if c = 'i' then ((word ['i', 'n', 'f']).giving (.number cs)) cs
      else if c = 'n' then ((word ['n', 'a', 'n']).giving (.number cs)) cs
      else .missed cs

/-- A list between brackets; a comma may follow the last item. -/
def list (depth : Nat) : Nat → Scan Item
  | 0, cs => .failed cs
  | fuel + 1, cs =>
    let item : Scan Item := do
      blanks
      let item ← value (depth + 1) fuel
      blanks
      return item
    let whole : Scan Item := do
      word ['[']
      let items ← maybe (separated item (word [',']))
      if items.isSome then
        let _ ← maybe (word [','])
      commit blanks
      commit (word [']'])
      return .list cs (items.getD [])
    whole cs

/-- A table between braces, on one line. -/
def braces (depth : Nat) : Nat → Scan Item
  | 0, cs => .failed cs
  | fuel + 1, cs =>
    let entry : Scan (List Key × Item) := do
      let path ← key
      commit (word ['='])
      gaps
      let item ← commit (value (depth + 1) fuel)
      gaps
      return (path, item)
    let whole : Scan Item := do
      word ['\x7b']
      let start ← here
      let entries ← maybe (separated entry (word [',']))
      gaps
      match braced? cs (entries.getD []) with
      | none => fun _ => .failed start
      | some table =>
        commit (word ['\x7d'])
        return table
    whole cs

end

-- ================================================================ lines

/-- A key with its value, up to the end of the line. -/
def keyValue : Scan (List Key × Item) := do
  let path ← key
  commit (word ['='])
  gaps
  let start ← here
  let item ← commit (value 0 (2 * start.length + 2))
  commit lineTrail
  return (path, item)

/-- A header, up to the end of the line, and whether its table is one of
several. -/
def header : Scan (Bool × List Key) := do
  let start ← here
  match start with
  | '[' :: '[' :: _ =>
    word ['[', '[']
    let path ← key
    word [']', ']']
    lineTrail
    return (true, path)
  | '[' :: _ :: _ =>
    word ['[']
    let path ← key
    word [']']
    lineTrail
    return (false, path)
  | _ => miss

/-- What has been read of a document: its table, and the path of the header that
values now belong to. -/
structure Progress where
  document : Item
  current : List Key

/-- One line of a document. -/
def line (p : Progress) : Scan Progress := fun cs =>
  match cs with
  | [] => .missed cs
  | c :: _ =>
    if c = '#' then ((commit (comment.andThen fun _ => lineOrTextEnd)).giving p) cs
    else if c = '[' then
      match commit header cs with
      | .done (repeated, path) rest =>
        match p.document.addHeader? repeated path cs with
        | some document => .done ⟨document, path⟩ rest
        | none => .failed cs
      | .missed stop => .failed stop
      | .failed stop => .failed stop
    else if c = '\n' ∨ c = '\r' then (lineEnd.giving p) cs
    else
      match commit keyValue cs with
      | .done (path, item) rest =>
        match p.document.addBelow? p.current path item with
        | some document => .done ⟨document, p.current⟩ rest
        | none => .failed cs
      | .missed stop => .failed stop
      | .failed stop => .failed stop

/-- The lines up to the end of the text. Each takes one unit of fuel. -/
def lines : Nat → Progress → Scan Progress
  | 0, p => fun cs => .done p cs
  | fuel + 1, p => fun cs =>
    match (gaps.andThen fun _ => line p) cs with
    | .done p rest => lines fuel p rest
    | .missed _ => (gaps.giving p) cs
    | .failed stop => .failed stop

/-- The document that makes up a text, or the place of its first offence. A byte
order mark may stand in front. -/
def document (text : List Char) : Except Place Item :=
  let body := match text with
    | '\uFEFF' :: rest => rest
    | _ => text
  match lines (body.length + 1) ⟨.root, []⟩ body with
  | .done p rest => if rest = [] then .ok p.document else .error rest
  | .missed stop => .error stop
  | .failed stop => .error stop

end ImportResolution.Toml
