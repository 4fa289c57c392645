/-
The package that a specifier names: its leading pieces between slashes, two where it begins a
scope and else one. What lies below a name that has all the pieces of a package is in the
package of that name (`packageName_append`), and every specifier is its package or lies below
it (`eq_or_isPackage_packageName`).
-/
import ImportResolution.Proofs.Text.Segments
import ImportResolution.Specifier

namespace ImportResolution.Specifier

open Text

variable {s : String} {n : Nat}

/-- How many pieces the name of a package has that begins like this: two in a scope, else
one. -/
def packageSize (s : String) : Nat :=
  if startsWith s "@" then 2 else 1

/-- The name has as many pieces as that of a package. -/
def IsPackage (name : String) : Prop :=
  (pieces '/' name).length = packageSize name

instance (name : String) : Decidable (IsPackage name) :=
  inferInstanceAs (Decidable (_ = _))

theorem packageName_eq (s : String) : packageName s = leading (packageSize s) s :=
  rfl

theorem packageSize_pos (s : String) : 0 < packageSize s := by
  unfold packageSize
  split <;> decide

/-- What follows a slash does not change whether a name begins with a scope. -/
theorem packageSize_append (s rest : String) : packageSize (s ++ "/" ++ rest) = packageSize s := by
  have hstarts : startsWith (s ++ "/" ++ rest) "@" = startsWith s "@" := by
    have hat : "@".toList = ['@'] := rfl
    rw [Bool.eq_iff_iff, startsWith_iff, startsWith_iff, toList_append_slash, hat]
    cases s.toList with
    | nil => exact iff_of_false (by simp) (by simp)
    | cons c cs => simp
  rw [packageSize, packageSize, hstarts]

theorem pieces_append (s rest : String) :
    pieces '/' (s ++ "/" ++ rest) = pieces '/' s ++ pieces '/' rest := by
  rw [pieces, toList_append_slash, splitOn_append_sep, List.map_append]
  rfl

theorem take_splitOn_ne_nil (hn : 0 < n) (cs : List Char) : (splitOn '/' cs).take n ≠ [] :=
  fun hnil => (List.take_eq_nil_iff.mp hnil).elim (Nat.ne_of_gt hn) (splitOn_ne_nil '/' cs)

/-- Cut again, the leading pieces are those of the text. -/
theorem splitOn_leading (hn : 0 < n) (s : String) :
    splitOn '/' (leading n s).toList = (splitOn '/' s.toList).take n := by
  rw [leading, String.toList_ofList, splitOn_joinOn (take_splitOn_ne_nil hn _) fun piece hp =>
    not_mem_of_mem_splitOn (List.mem_of_mem_take hp)]

theorem leading_of_length_le (h : (pieces '/' s).length ≤ n) : leading n s = s := by
  rw [pieces, List.length_map] at h
  rw [leading, List.take_of_length_le h, joinOn_splitOn, String.ofList_toList]

/-- Where a name has more pieces, a slash follows the leading ones. -/
theorem exists_eq_leading_append (hn : 0 < n) (h : n < (pieces '/' s).length) :
    ∃ rest, s = leading n s ++ "/" ++ rest := by
  rw [pieces, List.length_map] at h
  have hright : (splitOn '/' s.toList).drop n ≠ [] := fun hnil =>
    absurd (List.drop_eq_nil_iff.mp hnil) (Nat.not_le.mpr h)
  refine ⟨String.ofList (joinOn '/' ((splitOn '/' s.toList).drop n)), ?_⟩
  rw [← String.toList_inj, toList_append_slash, leading, String.toList_ofList,
    String.toList_ofList, ← joinOn_append (take_splitOn_ne_nil hn _) hright,
    List.take_append_drop, joinOn_splitOn]

/-- The leading pieces are the same below a name that has them all. -/
theorem leading_append (h : n ≤ (pieces '/' s).length) (rest : String) :
    leading n (s ++ "/" ++ rest) = leading n s := by
  rw [pieces, List.length_map] at h
  rw [leading, leading, toList_append_slash, splitOn_append_sep,
    List.take_append_of_le_length h]

/-- What lies below a name that is no scope alone is in the package of that name. -/
theorem packageName_append (h : packageSize s ≤ (pieces '/' s).length) (rest : String) :
    packageName (s ++ "/" ++ rest) = packageName s := by
  rw [packageName_eq, packageName_eq, packageSize_append, leading_append h]

theorem IsPackage.packageName_eq_self (h : IsPackage s) : packageName s = s :=
  leading_of_length_le (Nat.le_of_eq h)

/-- One piece that begins no scope is the name of a package. -/
theorem isPackage_of_one_piece (hslash : '/' ∉ s.toList) (hscope : '@' ∉ s.toList) :
    IsPackage s := by
  have hstarts : ¬ startsWith s "@" = true := fun h =>
    hscope ((startsWith_iff.mp h).subset List.mem_cons_self)
  rw [IsPackage, pieces, splitOn_of_not_mem hslash, packageSize, if_neg hstarts]
  rfl

/-- A specifier is the package that it names, or lies below it. -/
theorem eq_or_isPackage_packageName (s : String) :
    packageName s = s ∨ IsPackage (packageName s) ∧ ∃ rest, s = packageName s ++ "/" ++ rest := by
  rcases Nat.lt_or_ge (packageSize s) (pieces '/' s).length with hlt | hge
  · obtain ⟨rest, hrest⟩ := exists_eq_leading_append (packageSize_pos s) hlt
    refine Or.inr ⟨?_, rest, hrest⟩
    have hsize : packageSize (packageName s) = packageSize s := by
      conv => rhs; rw [hrest]
      exact (packageSize_append _ _).symm
    rw [pieces, List.length_map] at hlt
    rw [IsPackage, hsize, packageName_eq, pieces, List.length_map,
      splitOn_leading (packageSize_pos s), List.length_take, Nat.min_eq_left (Nat.le_of_lt hlt)]
  · exact Or.inl (leading_of_length_le hge)

end ImportResolution.Specifier
