/-
Texts cut at a separator and put together again, and the few questions about
the two ends of a text that paths, aliases and specifiers ask. Everything is
stated over the characters of a text, so that each answer is a recursion on
the text itself; cutting loses nothing (`joinOn_splitOn`).
-/

namespace ImportResolution.Text

-- ================================================ cutting and joining

/-- The pieces between the separators, empty pieces included: a text with
`n` separators has `n + 1` pieces. -/
def splitOn (sep : Char) : List Char → List (List Char)
  | [] => [[]]
  | c :: rest =>
    if c = sep then [] :: splitOn sep rest
    else
      match splitOn sep rest with
      | [] => [[c]]
      | piece :: pieces => (c :: piece) :: pieces

/-- The pieces with one separator between neighbours. -/
def joinOn (sep : Char) : List (List Char) → List Char
  | [] => []
  | [piece] => piece
  | piece :: pieces => piece ++ sep :: joinOn sep pieces

theorem splitOn_ne_nil (sep : Char) (cs : List Char) : splitOn sep cs ≠ [] := by
  cases cs with
  | nil => simp [splitOn]
  | cons c rest =>
    unfold splitOn
    split
    · simp
    · split <;> simp

/-- Cutting a text and joining the pieces gives the text back. -/
theorem joinOn_splitOn (sep : Char) (cs : List Char) : joinOn sep (splitOn sep cs) = cs := by
  induction cs with
  | nil => rfl
  | cons c rest ih =>
    unfold splitOn
    split
    · next h =>
      subst h
      cases hs : splitOn c rest with
      | nil => exact absurd hs (splitOn_ne_nil c rest)
      | cons piece pieces => rw [hs] at ih; simp [joinOn, ih]
    · cases hs : splitOn sep rest with
      | nil => exact absurd hs (splitOn_ne_nil sep rest)
      | cons piece pieces =>
        rw [hs] at ih
        cases pieces with
        | nil => simp [joinOn] at ih ⊢; exact ih
        | cons next more => simp [joinOn] at ih ⊢; exact ih

/-- The pieces of a text as texts. -/
def pieces (sep : Char) (s : String) : List String :=
  (splitOn sep s.toList).map String.ofList

/-- The texts with one separator between neighbours. -/
def joined (sep : Char) (parts : List String) : String :=
  String.ofList (joinOn sep (parts.map String.toList))

-- ================================================== the ends of a text

/-- What follows `start` in `cs`, when `cs` begins with it. -/
def afterStart? : List Char → List Char → Option (List Char)
  | [], cs => some cs
  | _ :: _, [] => none
  | s :: start, c :: cs => if s = c then afterStart? start cs else none

/-- Whether the text begins with `start`. -/
def startsWith (s start : String) : Bool :=
  (afterStart? start.toList s.toList).isSome

/-- The text without a leading `start`. -/
def dropStart? (s start : String) : Option String :=
  (afterStart? start.toList s.toList).map String.ofList

/-- The text without a trailing `ending`. -/
def dropEnd? (s ending : String) : Option String :=
  (afterStart? ending.toList.reverse s.toList.reverse).map fun cs => String.ofList cs.reverse

/-- Whether the text ends with `ending`. -/
def endsWith (s ending : String) : Bool :=
  (dropEnd? s ending).isSome

/-- The text without one leading `start`, or all of it. -/
def withoutStart (s start : String) : String :=
  (dropStart? s start).getD s

-- ============================================== the first occurrence

/-- The text before and after the first `c`. -/
def cutAt? (c : Char) : List Char → Option (List Char × List Char)
  | [] => none
  | d :: rest =>
    if d = c then some ([], rest)
    else (cutAt? c rest).map fun cut => (d :: cut.1, cut.2)

/-- The text with its first `c` replaced by `filling`; a text without a `c` is
left alone. -/
def fillFirst (c : Char) (filling s : String) : String :=
  match cutAt? c s.toList with
  | some (before, after) => String.ofList (before ++ filling.toList ++ after)
  | none => s

end ImportResolution.Text
