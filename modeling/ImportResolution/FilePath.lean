/-
Paths of files and directories as texts. A path is read component by component,
so that repeated slashes and inner `.` say nothing, but it keeps its spelling
until it is cleaned: joining, climbing to the parent and walking the ancestors
all work on the text that was written.
-/
import ImportResolution.WorkspacePath

namespace ImportResolution.FilePath

open Text

-- ========================================================== components

/-- One step of a path. -/
inductive Component where
  /-- The root of the file system. -/
  | root
  /-- A leading `.`; elsewhere a `.` is no component. -/
  | current
  /-- A `..`. -/
  | up
  /-- A file or directory name. -/
  | name (text : String)
deriving DecidableEq, Repr

/-- How a component is written. -/
def Component.text : Component → String
  | .root => "/"
  | .current => "."
  | .up => ".."
  | .name text => text

/-- The component that a segment between slashes stands for. -/
def Component.ofSegment? (segment : List Char) : Option Component :=
  if segment = [] ∨ segment = ['.'] then none
  else if segment = ['.', '.'] then some .up
  else some (.name (String.ofList segment))

/-- The start of a path that is not made of segments: a first slash, or a `.`
that is a whole first segment. -/
def lead : List Char → List Char
  | '/' :: _ => ['/']
  | ['.'] => ['.']
  | '.' :: '/' :: _ => ['.']
  | _ => []

/-- The component written by the start of a path. -/
def leadComponent? (cs : List Char) : Option Component :=
  match lead cs with
  | ['/'] => some .root
  | ['.'] => some .current
  | _ => none

/-- The segments after the start of a path. -/
def body (cs : List Char) : List (List Char) :=
  splitOn '/' (cs.drop (lead cs).length)

/-- The components of a path. -/
def components (p : String) : List Component :=
  (leadComponent? p.toList).toList ++ (body p.toList).filterMap Component.ofSegment?

/-- Whether two spellings have the same components. -/
def same (p q : String) : Bool :=
  components p == components q

/-- Whether the path starts at the root of the file system. -/
def isAbsolute (p : String) : Bool :=
  startsWith p "/"

-- ================================================== parents and names

/-- Whether a segment is no component. -/
def isVoid (segment : List Char) : Bool :=
  (Component.ofSegment? segment).isNone

/-- The path without its last component, spelled as before; the root and the
empty path have no parent. -/
def parent? (p : String) : Option String :=
  let cs := p.toList
  match (body cs).reverse.dropWhile isVoid with
  | _ :: before =>
    some (String.ofList (lead cs ++ joinOn '/' (before.dropWhile isVoid).reverse))
  | [] => if lead cs = ['.'] then some "" else none

/-- The name of the file or directory, if the path ends in a name. -/
def fileName? (p : String) : Option String :=
  match (components p).getLast? with
  | some (.name text) => some text
  | _ => none

/-- What follows the last dot of the file name, unless the dot starts it. -/
def extension? (p : String) : Option String :=
  match fileName? p with
  | none => none
  | some file =>
    match cutAt? '.' file.toList.reverse with
    | some (ending, stem) => if stem = [] then none else some (String.ofList ending.reverse)
    | none => none

theorem length_joinOn_append (sep : Char) (a b : List (List Char)) :
    (joinOn sep a).length ≤ (joinOn sep (a ++ b)).length := by
  induction a with
  | nil => simp [joinOn]
  | cons x xs ih =>
    cases xs with
    | nil =>
      cases b with
      | nil => simp [joinOn]
      | cons y ys => simp [joinOn]
    | cons y ys => simpa [joinOn] using ih

theorem lead_append_drop (cs : List Char) : lead cs ++ cs.drop (lead cs).length = cs := by
  unfold lead
  split <;> simp

theorem length_joinOn_lt {sep : Char} {a : List (List Char)} {x : List Char}
    (b : List (List Char)) (hx : x ≠ []) :
    (joinOn sep a).length < (joinOn sep (a ++ x :: b)).length := by
  induction a with
  | nil =>
    have : 0 < x.length := List.length_pos_iff.mpr hx
    cases b with
    | nil => exact this
    | cons z zs =>
      simp only [List.nil_append, joinOn, List.length_append, List.length_nil]
      omega
  | cons y ys ih =>
    cases ys with
    | nil =>
      have : 0 < x.length := List.length_pos_iff.mpr hx
      cases b <;> simp [joinOn]
    | cons z zs => simpa [joinOn] using ih

/-- A parent is shorter than the path, so climbing ends. -/
theorem length_parent_lt {p d : String} (h : parent? p = some d) :
    d.toList.length < p.toList.length := by
  unfold parent? at h
  simp only at h
  split at h
  · next last before hb =>
    have hsplit := lead_append_drop p.toList
    have hbody : joinOn '/' (body p.toList) = p.toList.drop (lead p.toList).length := by
      simp [body, joinOn_splitOn]
    injection h with h
    subst h
    have hlast : last ≠ [] := by
      have hv : isVoid last = false := by
        have := List.head_dropWhile_not isVoid (l := (body p.toList).reverse)
          (by rw [hb]; simp)
        simpa [hb] using this
      intro hnil
      subst hnil
      simp [isVoid, Component.ofSegment?] at hv
    obtain ⟨tail, htail⟩ : ∃ tail, body p.toList
        = (before.dropWhile isVoid).reverse ++ (tail ++ last :: ((body p.toList).reverse.takeWhile isVoid).reverse) := by
      refine ⟨(before.takeWhile isVoid).reverse, ?_⟩
      have h1 := List.takeWhile_append_dropWhile (p := isVoid) (l := (body p.toList).reverse)
      rw [hb] at h1
      have h2 := List.takeWhile_append_dropWhile (p := isVoid) (l := before)
      have h3 := congrArg List.reverse h1
      rw [← h2] at h3
      simp only [List.reverse_append, List.reverse_cons, List.reverse_reverse] at h3
      simpa using h3.symm
    have hlen : (joinOn '/' (before.dropWhile isVoid).reverse).length
        < (joinOn '/' (body p.toList)).length := by
      rw [htail, ← List.append_assoc]
      exact Nat.lt_of_le_of_lt (length_joinOn_append '/' _ _) (length_joinOn_lt _ hlast)
    rw [hbody] at hlen
    rw [String.toList_ofList, List.length_append]
    have := congrArg List.length hsplit
    rw [List.length_append] at this
    omega
  · split at h
    · next hl =>
      injection h with h
      subst h
      have := congrArg List.length (lead_append_drop p.toList)
      rw [hl] at this
      simp at this
      simp
      omega
    · cases h

/-- The path itself, its parent, and so on outwards. -/
def ancestors (p : String) : List String :=
  match _h : parent? p with
  | some d => p :: ancestors d
  | none => [p]
termination_by p.toList.length
decreasing_by exact length_parent_lt _h

-- ==================================================== joins and cleaning

/-- `rest` seen from `base`: an absolute `rest` replaces the base, any other
follows it after one slash. -/
def join (base rest : String) : String :=
  if isAbsolute rest then rest
  else if base = "" ∨ endsWith base "/" then base ++ rest
  else base ++ "/" ++ rest

/-- What one component does to the components kept so far, innermost first:
`.` says nothing and `..` takes back a name, stays at the root, and is kept
where there is nothing to take back. -/
def settle (kept : List Component) : Component → List Component
  | .current => kept
  | .up =>
    match kept with
    | .name _ :: before => before
    | .root :: _ => kept
    | _ => .up :: kept
  | c => c :: kept

/-- The text of a list of components. -/
def ofComponents : List Component → String
  | .root :: rest => "/" ++ joined '/' (rest.map Component.text)
  | parts => joined '/' (parts.map Component.text)

/-- The components of the cleaned path. -/
def settled (p : String) : List Component :=
  ((components p).foldl settle []).reverse

/-- The path with every `.` and `..` carried out, without looking at any
directory; the empty path stays empty. -/
def clean (p : String) : String :=
  ofComponents (settled p)

-- ============================================================ differences

/-- The steps that lead from the second path to the first: up from what only
the second has, then down what only the first has. A `..` of the second path
that has no counterpart cannot be undone. -/
def difference : List Component → List Component → Option (List Component)
  | [], base => some (base.map fun _ => .up)
  | path, [] => some path
  | a :: path, b :: base =>
    if a = b then difference path base
    else if b = .up then none
    else some ((b :: base).map (fun _ => .up) ++ a :: path)

/-- The path from `base` to `path` in workspace form. An absolute path is its
own answer when the base is relative; there is none the other way round. -/
def relativeTo? (base path : String) : Option String :=
  if isAbsolute path = isAbsolute base then
    (difference (settled path) (settled base)).map fun steps =>
      WorkspacePath.normalize (ofComponents steps)
  else if isAbsolute path then some (WorkspacePath.normalize (clean path))
  else none

end ImportResolution.FilePath
