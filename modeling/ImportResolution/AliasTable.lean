/-
Alias tables: patterns for module specifiers, each with the targets that stand
in for a specifier that matches it, in the order of declaration.

Two readings of a table live side by side. `expand` takes a pattern that equals
the specifier, and otherwise the first declared pattern ending in `/*` that
covers it. `closest?` reads every `*` of a pattern and takes the pattern with
the longest fixed beginning, as a compiler does.
-/
import ImportResolution.Table
import ImportResolution.Text.Segments

namespace ImportResolution

/-- Patterns with their targets, each pattern once. -/
structure AliasTable where
  entries : List (String × List String)
deriving DecidableEq, Repr, Inhabited

namespace AliasTable

open Text

/-- The table without patterns. -/
def empty : AliasTable := ⟨[]⟩

/-- The table of some declarations: a repeated pattern keeps its first place and
has its last targets. -/
def ofDeclarations (declarations : List (String × List String)) : AliasTable :=
  ⟨Table.ofEntries declarations⟩

/-- The patterns in order. -/
def patterns (t : AliasTable) : List String := Table.keys t.entries

/-- How many patterns there are. -/
def size (t : AliasTable) : Nat := t.entries.length

/-- Whether there is no pattern. -/
def isEmpty (t : AliasTable) : Bool := t.entries.isEmpty

/-- The target with its first `*` replaced by what a pattern has captured. -/
def fill (captured target : String) : String := fillFirst '*' captured target

-- ==================================================== the first pattern

/-- What the `*` of a pattern ending in `/*` captures: the rest of a specifier
that begins with the part before the `*`, and nothing of a specifier that is
this part without its slash. -/
def captured? (pattern specifier : String) : Option String :=
  match dropEnd? pattern "*" with
  | none => none
  | some start =>
    match dropEnd? start "/" with
    | none => none
    | some bare =>
      match dropStart? specifier start with
      | some rest => some rest
      | none => if specifier = bare then some "" else none

/-- The targets for a specifier: those of the pattern it equals as they are, or
else those of the first `/*` pattern that covers it, filled. -/
def expand (t : AliasTable) (specifier : String) : Option (List String) :=
  match t.entries.lookup specifier with
  | some targets => some targets
  | none =>
    t.entries.findSome? fun e =>
      (captured? e.1 specifier).map fun captured => e.2.map (fill captured)

-- ================================================== the closest pattern

/-- How closely a pattern fits: exactly, or by a beginning of some bytes. -/
inductive Fit where
  | beginning (bytes : Nat)
  | exact
deriving DecidableEq, Repr

/-- Whether the first fit is strictly closer than the second. -/
def Fit.closer : Fit → Fit → Bool
  | .exact, .beginning _ => true
  | .beginning m, .beginning n => n < m
  | _, .exact => false

/-- The text between a beginning and an ending that do not overlap. -/
def between? (start ending s : String) : Option String :=
  (dropStart? s start).bind fun rest => dropEnd? rest ending

/-- How a pattern fits a specifier and what its first `*` captures. -/
def fit? (pattern specifier : String) : Option (Fit × String) :=
  match cutAt? '*' pattern.toList with
  | none => if pattern = specifier then some (.exact, "") else none
  | some (before, after) =>
    let start := String.ofList before
    (between? start (String.ofList after) specifier).map fun captured =>
      (.beginning start.utf8ByteSize, captured)

/-- The closest fit among some entries, the earliest of equally close ones. -/
def closestOf? (specifier : String) :
    List (String × List String) → Option (Fit × String × List String)
  | [] => none
  | (pattern, targets) :: rest =>
    match fit? pattern specifier, closestOf? specifier rest with
    | none, later => later
    | some (fit, captured), none => some (fit, captured, targets)
    | some (fit, captured), some later =>
      if later.1.closer fit then some later else some (fit, captured, targets)

/-- The filled targets of the closest pattern. -/
def closest? (t : AliasTable) (specifier : String) : Option (List String) :=
  (closestOf? specifier t.entries).map fun found => found.2.2.map (fill found.2.1)

end AliasTable

end ImportResolution
