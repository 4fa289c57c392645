/-
Joins of paths. A relative path is a way that can be gone from any location: up so many
directories and then down its names (`Location.follow`). What a segment does to the way, it
does to where the way leads (`follow_enter`). So a way and another one after it are one way
(`follow_assoc`), also where the second one goes back over names of the first, climbs
further out than the first, or stays at the root of the file system.

A join leads where its relative path leads from its base (`location_join`), and it is in
normal form. Two joins are therefore the same as soon as they lead to one location.
-/
import ImportResolution.Proofs.WorkspacePath.Locations
import Mathlib.Logic.Function.Iterate

namespace ImportResolution.WorkspacePath

variable {base p q rest : String}

-- ================================================================= ways

namespace Location

/-- Where a location leads to as seen from another one; what is counted from the root of
the file system is the same place from everywhere. -/
def follow (base : Location) : Location → Location
  | .absolute names => .absolute names
  | .relative climbs names => names.foldr (fun name l => l.down name) (up^[climbs] base)

theorem up_down (l : Location) (name : String) : (l.down name).up = l := by
  cases l with
  | absolute names => rfl
  | relative climbs names => rfl

theorem follow_down (base l : Location) (name : String) :
    base.follow (l.down name) = (base.follow l).down name := by
  cases l with
  | absolute names => rfl
  | relative climbs names => rfl

theorem follow_up (base l : Location) : base.follow l.up = (base.follow l).up := by
  cases l with
  | absolute names => rfl
  | relative climbs names =>
      cases names with
      | nil => exact Function.iterate_succ_apply' up climbs base
      | cons last before => exact (up_down _ last).symm

/-- What a segment does to the way, it does to where the way leads. -/
theorem follow_enter (base l : Location) (segment : String) :
    base.follow (l.enter segment) = (base.follow l).enter segment := by
  unfold enter
  split
  · rfl
  · split
    · exact follow_up base l
    · exact follow_down base l segment

theorem follow_foldl_enter (base l : Location) (segments : List String) :
    base.follow (segments.foldl enter l) = segments.foldl enter (base.follow l) := by
  induction segments generalizing l with
  | nil => rfl
  | cons segment more ih => rw [List.foldl_cons, List.foldl_cons, ih, follow_enter]

/-- What is not counted from the root is reached by going up and down from where a path
starts. -/
theorem induction_by_steps {motive : Location → Prop} (absolute : ∀ names, motive (.absolute names))
    (start : motive (origin false)) (up : ∀ l, motive l → motive l.up)
    (down : ∀ l name, motive l → motive (l.down name)) (l : Location) : motive l := by
  cases l with
  | absolute names => exact absolute names
  | relative climbs names =>
      induction names with
      | nil =>
          induction climbs with
          | zero => exact start
          | succ climbs ih => exact up (.relative climbs []) ih
      | cons last before ih => exact down (.relative climbs before) last ih

/-- One way after another is one way. -/
theorem follow_assoc (base l way : Location) :
    (base.follow l).follow way = base.follow (l.follow way) := by
  induction way using induction_by_steps with
  | absolute names => rfl
  | start => rfl
  | up way ih => rw [follow_up, follow_up, follow_up, ih]
  | down way name ih => rw [follow_down, follow_down, follow_down, ih]

/-- From where a relative path starts every location leads to itself. -/
theorem follow_origin (l : Location) : (origin false).follow l = l := by
  induction l using induction_by_steps with
  | absolute names => rfl
  | start => rfl
  | up l ih => rw [follow_up, ih]
  | down l name ih => rw [follow_down, ih]

end Location

-- ================================================================ joins

theorem segments_slash (base rest : String) :
    segments (base ++ "/" ++ rest) = segments base ++ segments rest := by
  rw [segments_eq, segments_eq, segments_eq, Text.toList_append_slash,
    List.splitOnP_append_cons _ _ rfl, List.map_append]

theorem isRooted_slash (hbase : base ≠ "") : isRooted (base ++ "/" ++ rest) = isRooted base := by
  rw [isRooted_eq, isRooted_eq, startsApart, startsApart, Text.toList_append_slash]
  cases hcs : base.toList with
  | nil => exact absurd (String.toList_eq_nil_iff.mp hcs) hbase
  | cons c more => rfl

theorem location_slash (hbase : base ≠ "") (hrest : isRooted rest = false) :
    location (base ++ "/" ++ rest) = (location base).follow (location rest) := by
  have hstart : (location base).follow (.origin false) = location base := rfl
  rw [location_eq rest, hrest, Location.follow_foldl_enter, hstart, location_eq base,
    location_eq (base ++ "/" ++ rest), isRooted_slash hbase, segments_slash, List.foldl_append]

/-- A join leads where the relative path leads from the base. -/
theorem location_join (hrest : isRooted rest = false) :
    location (join base rest) = (location base).follow (location rest) := by
  have hempty : location "" = .origin false := by decide
  have hcurrent : location "." = .origin false := by decide
  unfold join
  by_cases hbase : base = "" ∨ base = "."
  · rw [if_pos hbase, location_normalize]
    rcases hbase with rfl | rfl
    · rw [hempty, Location.follow_origin]
    · rw [hcurrent, Location.follow_origin]
  · rw [if_neg hbase, location_normalize]
    exact location_slash (fun h => hbase (Or.inl h)) hrest

theorem isRooted_join (hp : isRooted p = false) (hq : isRooted q = false) :
    isRooted (join p q) = false := by
  unfold join
  by_cases hvoid : p = "" ∨ p = "."
  · rw [if_pos hvoid, isRooted_normalize, hq]
  · rw [if_neg hvoid, isRooted_normalize, isRooted_slash fun h => hvoid (Or.inl h), hp]

/-- Normal forms are the same if they lead to one location. -/
theorem IsNormal.eq_of_location_eq (hp : IsNormal p) (hq : IsNormal q)
    (h : location p = location q) : p = q := by
  rw [← normalize_eq_iff, hp, hq] at h
  exact h

/-- Relative paths may be joined to a base one after the other or to each other first, and
the base and a relative path may be brought to normal form first; the target is the same. -/
theorem join_step_by_step (base : String) {r₁ r₂ : String} (h₁ : startsApart r₁ = false)
    (h₂ : startsApart r₂ = false) :
    join (join base r₁) r₂ = join base (join r₁ r₂) ∧
      join (normalize base) (normalize r₁) = join base r₁ := by
  rw [← isRooted_eq] at h₁ h₂
  have hboth : isRooted (join r₁ r₂) = false := isRooted_join h₁ h₂
  have hnormal : isRooted (normalize r₁) = false := (isRooted_normalize r₁).trans h₁
  constructor
  · apply IsNormal.eq_of_location_eq (isNormal_join _ _) (isNormal_join _ _)
    calc location (join (join base r₁) r₂)
        = ((location base).follow (location r₁)).follow (location r₂) := by
          rw [location_join h₂, location_join h₁]
      _ = (location base).follow ((location r₁).follow (location r₂)) :=
          Location.follow_assoc _ _ _
      _ = location (join base (join r₁ r₂)) := by
          rw [location_join hboth, location_join h₂]
  · apply IsNormal.eq_of_location_eq (isNormal_join _ _) (isNormal_join _ _)
    rw [location_join hnormal, location_join h₁, location_normalize, location_normalize]

/-- The relative paths climb out of the base, which starts at the root of the file system. -/
theorem join_step_by_step_outside :
    startsApart "../..\\.././lib" = false ∧ startsApart "../../a//b/.." = false ∧
      join (join "/ws/./app" "../..\\.././lib") "../../a//b/.."
        = join "/ws/./app" (join "../..\\.././lib" "../../a//b/..") ∧
      join (normalize "/ws/./app") (normalize "../..\\.././lib")
        = join "/ws/./app" "../..\\.././lib" := by
  have h₁ : startsApart "../..\\.././lib" = false := by decide
  have h₂ : startsApart "../../a//b/.." = false := by decide
  exact ⟨h₁, h₂, join_step_by_step "/ws/./app" h₁ h₂⟩

end ImportResolution.WorkspacePath
