/-
Module specifiers: the package that a bare one names, and what it asks for
inside the package.
-/
import ImportResolution.Text.Segments

namespace ImportResolution.Specifier

open Text

/-- The first `n` pieces between slashes, with the slashes between them. -/
def leading (n : Nat) (specifier : String) : String :=
  String.ofList (joinOn '/' ((splitOn '/' specifier.toList).take n))

/-- The package that a specifier names: two pieces in a scope, else one. -/
def packageName (specifier : String) : String :=
  leading (if startsWith specifier "@" then 2 else 1) specifier

/-- What a specifier asks for inside its package, if it asks for anything. -/
def subpath? (specifier : String) : Option String :=
  match dropStart? specifier (packageName specifier ++ "/") with
  | some "" => none
  | rest => rest

end ImportResolution.Specifier
