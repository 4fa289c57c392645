/-
Where a path leads. Read segment by segment a path is a walk: a name goes down, and `..`
goes back up from the last name, further up from where the path starts, or nowhere at the
root of the file system. All that is left of a walk is its `Location`: so many directories
up, unless it is counted from the root, and then down names.

# Normal forms are locations written out

While a path is brought to normal form, the segments kept so far are those of the location
walked to so far (`step_kept`). No name of a location is `..`, so its segments lead to it
and to no other (`foldl_enter_kept`). Two paths therefore have one normal form exactly if
they lead to one location, and the normal form is what the location is written as.
-/
import ImportResolution.Proofs.WorkspacePath

namespace ImportResolution.WorkspacePath

open Text

-- ============================================================ locations

/-- A place that a path leads to; its names stand innermost first. -/
inductive Location where
  /-- Down names from the root of the file system. -/
  | absolute (names : List String)
  /-- Up so many directories from where the path starts, then down names. -/
  | relative (climbs : Nat) (names : List String)
deriving DecidableEq, Repr

namespace Location

/-- Down to a name. -/
def down : Location → String → Location
  | .absolute names, name => .absolute (name :: names)
  | .relative climbs names, name => .relative climbs (name :: names)

/-- Up by one directory: back from the last name or, where there is none, out of where the
path starts. Above the root there is nothing. -/
def up : Location → Location
  | .absolute names => .absolute names.tail
  | .relative climbs [] => .relative (climbs + 1) []
  | .relative climbs (_ :: names) => .relative climbs names

/-- Where one segment leads. -/
def enter (l : Location) (segment : String) : Location :=
  if segment = "" ∨ segment = "." then l
  else if segment = ".." then l.up
  else l.down segment

/-- Whether the location is counted from the root of the file system. -/
def isAbsolute : Location → Bool
  | .absolute _ => true
  | .relative _ _ => false

def names : Location → List String
  | .absolute names => names
  | .relative _ names => names

/-- The segments that a location is written with, innermost first. -/
def kept : Location → List String
  | .absolute names => names
  | .relative climbs names => names ++ List.replicate climbs ".."

/-- Where a path starts. -/
def origin (rooted : Bool) : Location :=
  if rooted then .absolute [] else .relative 0 []

end Location

/-- Both slashes separate segments. -/
def isSeparator (c : Char) : Bool :=
  c == '/' || c == '\\'

/-- Whether the path starts with a separator. -/
def startsApart (p : String) : Bool :=
  p.toList.head?.any isSeparator

/-- The location that the segments between the separators lead to one after the other. -/
def location (p : String) : Location :=
  (p.toList.splitOnP isSeparator).foldl (fun l segment => l.enter (String.ofList segment))
    (.origin (startsApart p))

variable {p q : String} {l : Location} {segment : String}

-- =========================================================== separators

theorem forward_eq_slash_iff {c : Char} : forward c = '/' ↔ isSeparator c = true := by
  unfold forward isSeparator
  split
  · next h => simp [h]
  · next h => simp [h]

/-- Apart from the separators nothing changes when all slashes are turned forward. -/
theorem splitOn_forward (cs : List Char) :
    splitOn '/' (cs.map forward) = cs.splitOnP isSeparator := by
  induction cs with
  | nil => rfl
  | cons c rest ih =>
      rw [List.map_cons, splitOn, List.splitOnP_cons_eq_if_modifyHead, ih]
      by_cases hc : isSeparator c = true
      · rw [if_pos (forward_eq_slash_iff.mpr hc), if_pos hc]
      · have hsame : forward c = c := by
          unfold forward
          refine if_neg fun h => hc ?_
          simp [isSeparator, h]
        rw [if_neg (mt forward_eq_slash_iff.mp hc), if_neg hc, hsame]
        cases hs : rest.splitOnP isSeparator with
        | nil => exact absurd hs (List.splitOnP_ne_nil _ _)
        | cons piece pieces => rfl

theorem segments_eq (p : String) :
    segments p = (p.toList.splitOnP isSeparator).map String.ofList := by
  rw [segments, pieces, slashed, String.toList_ofList, splitOn_forward]

theorem isRooted_eq (p : String) : isRooted p = startsApart p := by
  have hslash : "/".toList = ['/'] := rfl
  rw [Bool.eq_iff_iff, isRooted, startsWith_iff, slashed, startsApart, hslash,
    String.toList_ofList]
  cases p.toList with
  | nil => simp
  | cons c rest =>
      rw [List.map_cons, List.cons_prefix_cons, @eq_comm _ '/', forward_eq_slash_iff]
      simp

theorem location_eq (p : String) :
    location p = (segments p).foldl Location.enter (.origin (isRooted p)) := by
  rw [segments_eq, isRooted_eq, List.foldl_map]
  rfl

-- ============================================================= walking

namespace Location

/-- Every name is one, and none is `..`. -/
def Proper (l : Location) : Prop :=
  ∀ name ∈ l.names, IsProper name ∧ name ≠ ".."

theorem proper_origin (rooted : Bool) : (origin rooted).Proper := by
  cases rooted with
  | true => exact List.forall_mem_nil _
  | false => exact List.forall_mem_nil _

theorem kept_origin (rooted : Bool) : (origin rooted).kept = [] := by
  cases rooted with
  | true => rfl
  | false => rfl

theorem isAbsolute_origin (rooted : Bool) : (origin rooted).isAbsolute = rooted := by
  cases rooted with
  | true => rfl
  | false => rfl

theorem isAbsolute_enter (l : Location) (segment : String) :
    (l.enter segment).isAbsolute = l.isAbsolute := by
  unfold enter
  split
  · rfl
  · split
    · cases l with
      | absolute names => rfl
      | relative climbs names => cases names <;> rfl
    · cases l <;> rfl

theorem isAbsolute_foldl_enter (segments : List String) (l : Location) :
    (segments.foldl enter l).isAbsolute = l.isAbsolute := by
  induction segments generalizing l with
  | nil => rfl
  | cons segment rest ih => rw [List.foldl_cons, ih, isAbsolute_enter]

theorem Proper.up (h : l.Proper) : l.up.Proper := by
  cases l with
  | absolute names => exact fun name hn => h name (List.mem_of_mem_tail hn)
  | relative climbs names =>
      cases names with
      | nil => exact List.forall_mem_nil _
      | cons last before => exact fun name hn => h name (List.mem_cons_of_mem _ hn)

theorem Proper.down (h : l.Proper) (hs : IsProper segment) (hup : segment ≠ "..") :
    (l.down segment).Proper := by
  cases l with
  | absolute names => exact List.forall_mem_cons.mpr ⟨⟨hs, hup⟩, h⟩
  | relative climbs names => exact List.forall_mem_cons.mpr ⟨⟨hs, hup⟩, h⟩

theorem Proper.enter (h : l.Proper) (hs : '/' ∉ segment.toList ∧ '\\' ∉ segment.toList) :
    (l.enter segment).Proper := by
  unfold Location.enter
  by_cases hvoid : segment = "" ∨ segment = "."
  · rw [if_pos hvoid]
    exact h
  · rw [if_neg hvoid]
    by_cases hup : segment = ".."
    · rw [if_pos hup]
      exact h.up
    · rw [if_neg hup]
      rw [not_or] at hvoid
      exact h.down ⟨hvoid.1, hvoid.2, hs.1, hs.2⟩ hup

/-- What a segment does to the segments kept so far, it does to the location. -/
theorem Proper.step_kept (h : l.Proper) (segment : String) :
    step l.isAbsolute l.kept segment = (l.enter segment).kept := by
  unfold step Location.enter
  by_cases hvoid : segment = "" ∨ segment = "."
  · rw [if_pos hvoid, if_pos hvoid]
  · rw [if_neg hvoid, if_neg hvoid]
    by_cases hup : segment = ".."
    · rw [if_pos hup, if_pos hup]
      cases l with
      | absolute names =>
          cases names with
          | nil => rfl
          | cons last before =>
              have hlast := (h last (List.mem_cons_self ..)).2
              simp [kept, Location.up, hlast]
      | relative climbs names =>
          cases names with
          | nil => cases climbs <;> rfl
          | cons last before =>
              have hlast := (h last (List.mem_cons_self ..)).2
              simp [kept, Location.up, hlast]
    · rw [if_neg hup, if_neg hup]
      cases l <;> rfl

theorem Proper.foldl (h : l.Proper) {segments : List String}
    (hs : ∀ segment ∈ segments, '/' ∉ segment.toList ∧ '\\' ∉ segment.toList) :
    (segments.foldl Location.enter l).Proper ∧
      segments.foldl (step l.isAbsolute) l.kept = (segments.foldl Location.enter l).kept := by
  induction segments generalizing l with
  | nil => exact ⟨h, rfl⟩
  | cons segment rest ih =>
      obtain ⟨hsegment, hrest⟩ := List.forall_mem_cons.mp hs
      have hnext := ih (h.enter hsegment) hrest
      rw [isAbsolute_enter] at hnext
      rw [List.foldl_cons, List.foldl_cons, h.step_kept]
      exact hnext

-- ============================================================ read back

theorem foldl_enter_climbs (n m : Nat) :
    (List.replicate n "..").foldl enter (.relative m []) = .relative (m + n) [] := by
  induction n generalizing m with
  | zero => rfl
  | succ n ih =>
      rw [List.replicate_succ, List.foldl_cons]
      show (List.replicate n "..").foldl enter (.relative (m + 1) []) = _
      rw [ih, Nat.add_assoc, Nat.add_comm 1]

theorem enter_of_isProper (l : Location) (h : IsProper segment) (hup : segment ≠ "..") :
    l.enter segment = l.down segment := by
  unfold enter
  rw [if_neg (not_or.mpr ⟨h.ne_empty, h.ne_current⟩), if_neg hup]

/-- Names lead down one after the other, whatever the location is counted from. -/
theorem foldl_enter_names (c : List String → Location)
    (hdown : ∀ names name, (c names).down name = c (name :: names)) {names : List String}
    (h : ∀ name ∈ names, IsProper name ∧ name ≠ "..") :
    names.reverse.foldl enter (c []) = c names := by
  induction names with
  | nil => rfl
  | cons last before ih =>
      obtain ⟨⟨hlast, hup⟩, hbefore⟩ := List.forall_mem_cons.mp h
      rw [List.reverse_cons, List.foldl_append, ih hbefore]
      show (c before).enter last = c (last :: before)
      rw [enter_of_isProper _ hlast hup, hdown]

/-- The segments of a location lead to it. -/
theorem Proper.foldl_enter_kept (h : l.Proper) :
    l.kept.reverse.foldl Location.enter (.origin l.isAbsolute) = l := by
  cases l with
  | absolute names => exact foldl_enter_names .absolute (fun _ _ => rfl) h
  | relative climbs names =>
      show (names ++ List.replicate climbs "..").reverse.foldl Location.enter (.relative 0 []) = _
      rw [List.reverse_append, List.reverse_replicate, List.foldl_append, foldl_enter_climbs,
        Nat.zero_add]
      exact foldl_enter_names (.relative climbs) (fun _ _ => rfl) h

end Location

-- ======================================================== normal forms

theorem proper_location (p : String) : (location p).Proper := by
  rw [location_eq]
  exact ((Location.proper_origin _).foldl fun segment hs => mem_segments hs).1

theorem isAbsolute_location (p : String) : (location p).isAbsolute = isRooted p := by
  rw [location_eq, Location.isAbsolute_foldl_enter, Location.isAbsolute_origin]

/-- The segments that are kept of a path are those of its location. -/
theorem walked_eq (p : String) : walked p = (location p).kept.reverse := by
  have hwalk := ((Location.proper_origin (isRooted p)).foldl fun segment
    (hs : segment ∈ segments p) => mem_segments hs).2
  rw [Location.isAbsolute_origin, Location.kept_origin, ← location_eq] at hwalk
  rw [walked, hwalk]

/-- What a location is written as. -/
def Location.text (l : Location) : String :=
  written l.isAbsolute l.kept.reverse

/-- The segments of a location are those of a normal form. -/
theorem Location.Proper.walked (h : l.Proper) : Walked l.isAbsolute l.kept.reverse := by
  cases l with
  | absolute names =>
      exact ⟨0, names.reverse, rfl, fun name hn => h name (List.mem_reverse.mp hn), fun _ => rfl⟩
  | relative climbs names =>
      refine ⟨climbs, names.reverse, ?_, fun name hn => h name (List.mem_reverse.mp hn), nofun⟩
      show (names ++ List.replicate climbs "..").reverse = _
      rw [List.reverse_append, List.reverse_replicate]

/-- What a location is written as leads to it. -/
theorem Location.Proper.location_text (h : l.Proper) : location l.text = l := by
  have hrooted : isRooted l.text = l.isAbsolute := h.walked.isRooted_written
  have hwalked : WorkspacePath.walked l.text = l.kept.reverse := h.walked.walked_written
  calc location l.text
      = (location l.text).kept.reverse.foldl Location.enter (origin (location l.text).isAbsolute) :=
        (proper_location l.text).foldl_enter_kept.symm
    _ = l.kept.reverse.foldl Location.enter (origin l.isAbsolute) := by
        rw [← walked_eq, isAbsolute_location, hrooted, hwalked]
    _ = l := h.foldl_enter_kept

/-- A path below no root leads up so many directories and then down names. -/
theorem exists_location (hr : isRooted p = false) :
    ∃ climbs names, location p = .relative climbs names := by
  cases hl : location p with
  | absolute names =>
      have h := isAbsolute_location p
      rw [hl, hr] at h
      cases h
  | relative climbs names => exact ⟨climbs, names, rfl⟩

/-- The normal form of a path is the text of its location. -/
theorem normalize_eq_text (p : String) : normalize p = (location p).text := by
  rw [normalize, Location.text, isAbsolute_location, walked_eq]

theorem normalize_eq_iff : normalize p = normalize q ↔ location p = location q := by
  constructor
  · intro h
    have hrooted := congrArg isRooted h
    have hwalked := congrArg walked h
    rw [isRooted_normalize, isRooted_normalize] at hrooted
    rw [walked_normalize, walked_normalize, walked_eq, walked_eq] at hwalked
    rw [← (proper_location p).foldl_enter_kept, ← (proper_location q).foldl_enter_kept,
      isAbsolute_location, isAbsolute_location, hrooted, hwalked]
  · intro h
    rw [normalize_eq_text, normalize_eq_text, h]

theorem location_normalize (p : String) : location (normalize p) = location p :=
  normalize_eq_iff.mp (isNormal_normalize p)

/-- Names with a slash between neighbours, after a leading run of `..` that only a path below
no root has, and after one slash where there is a root. With no segments at all the text is
that slash, or `.`. -/
def IsCanonical (rooted : Bool) (text : String) : Prop :=
  rooted = false ∧ text = "." ∨
    ∃ parts, Walked rooted parts ∧ (rooted = false → parts ≠ []) ∧
      text = (if rooted then "/" else "") ++ joined '/' parts

theorem Walked.isCanonical_written {rooted : Bool} {parts : List String}
    (h : Walked rooted parts) : IsCanonical rooted (written rooted parts) := by
  cases rooted with
  | true => exact Or.inr ⟨parts, h, nofun, rfl⟩
  | false =>
      by_cases hparts : parts = []
      · rw [hparts]
        exact Or.inl ⟨rfl, rfl⟩
      · refine Or.inr ⟨parts, h, fun _ => hparts, ?_⟩
        rw [written_of_ne_nil hparts]
        exact String.empty_append.symm

theorem isCanonical_normalize (p : String) : IsCanonical (isRooted p) (normalize p) :=
  (walked_walked p).isCanonical_written

/-- A path is brought to a form of its location: doing so again changes nothing, the form has
no void segment, no backslash and no `..` but at the start of a path below no root, and two
paths have the same form exactly if their segments lead to the same location. -/
theorem normalize_canonical (p : String) :
    normalize (normalize p) = normalize p ∧ IsCanonical (startsApart p) (normalize p) ∧
      '\\' ∉ (normalize p).toList ∧
      ∀ q, normalize p = normalize q ↔ location p = location q := by
  have hnormal : IsNormal (normalize p) := isNormal_normalize p
  have hcanonical := isCanonical_normalize p
  rw [isRooted_eq] at hcanonical
  exact ⟨hnormal, hcanonical, hnormal.backslash_not_mem, fun q => normalize_eq_iff⟩

example : location "libs\\.././../a//b/" = .relative 1 ["b", "a"] := by
  decide

end ImportResolution.WorkspacePath
