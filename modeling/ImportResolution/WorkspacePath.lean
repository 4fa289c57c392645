/-
Paths relative to the workspace root, written with `/` or `\` between their
segments. Every path of a project, a context or an importing file is brought
to one normal form before it is compared: names only, after a leading run of
`..` that climbs out of the root. The normal form of the root itself is `.`.
-/
import ImportResolution.Text.Segments

namespace ImportResolution.WorkspacePath

open Text

-- ===================================================== the normal form

/-- Both slashes separate segments; the forward one is the normal spelling. -/
def forward (c : Char) : Char :=
  if c = '\\' then '/' else c

/-- The path with forward slashes only. -/
def slashed (p : String) : String :=
  String.ofList (p.toList.map forward)

/-- Whether the path starts at the root of the file system. -/
def isRooted (p : String) : Bool :=
  startsWith (slashed p) "/"

/-- The segments of the path, empty ones included. -/
def segments (p : String) : List String :=
  pieces '/' (slashed p)

/-- What one segment does to the segments kept so far, innermost first: an
empty segment and `.` stay where they are, `..` takes back the last name, is
kept when there is no name to take back, and is dropped at the root. -/
def step (rooted : Bool) (kept : List String) (segment : String) : List String :=
  if segment = "" ∨ segment = "." then kept
  else if segment = ".." then
    match kept with
    | [] => if rooted then [] else [".."]
    | last :: before => if last ≠ ".." then before else if rooted then kept else ".." :: kept
  else segment :: kept

/-- The segments that remain after every `.` and `..` has been carried out. -/
def walked (p : String) : List String :=
  ((segments p).foldl (step (isRooted p)) []).reverse

/-- The text of a normal form; no segments at all are the root, or `.`. -/
def written (rooted : Bool) (parts : List String) : String :=
  if rooted then "/" ++ joined '/' parts
  else if parts = [] then "." else joined '/' parts

/-- The normal form of a path. -/
def normalize (p : String) : String :=
  written (isRooted p) (walked p)

-- ================================================= directories and joins

/-- The directory of a path in normal form: the path up to the last slash,
`.` for a single name, and `/` for a name at the root of the file system. -/
def directory (p : String) : String :=
  match (normalize p).toList.reverse.dropWhile (· ≠ '/') with
  | [] => "."
  | _ :: [] => "/"
  | _ :: before => String.ofList before.reverse

/-- The path `relative` leads to from `base`. -/
def join (base relative : String) : String :=
  if base = "" ∨ base = "." then normalize relative
  else normalize (base ++ "/" ++ relative)

-- ============================================================ questions

/-- Whether some segment of the path is `segment`. -/
def hasSegment (p segment : String) : Bool :=
  (segments p).any (· == segment)

/-- Whether a path in normal form climbs out of the workspace. -/
def escapes (p : String) : Bool :=
  p == ".." || startsWith p "../"

/-- Whether a module specifier is relative to the importing file. -/
def isRelative (specifier : String) : Bool :=
  specifier == "." || specifier == ".." || startsWith specifier "./" || startsWith specifier "../"

/-- The path of a file as the importing side gives it: one leading `./` is
taken off and the rest is brought to normal form. -/
def ofGiven (p : String) : String :=
  normalize (withoutStart p "./")

end ImportResolution.WorkspacePath
