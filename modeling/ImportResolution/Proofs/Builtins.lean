/-
What leads to a builtin module: its name, and what lies below the name. A specifier is asked
for by itself and by the package that it names, which has one piece, or two in a scope. So
what lies below a name is found if the name has just as many pieces as a package
(`covers_iff`). All names of the runtime do. An extra name need not: one with more pieces is
passed over for the package that it lies in, and a scope alone for whatever package follows
(`covers_subpaths_iff`).
-/
import ImportResolution.Builtins
import ImportResolution.Proofs.Specifier
import Mathlib.Algebra.Order.BigOperators.Group.List
import Mathlib.Algebra.Order.Group.Nat

namespace ImportResolution.Builtins

open Specifier
open Text (pieces)

variable {extra : List String} {name s : String}

-- ================================================================ names

/-- The names of builtin modules: those of the runtime, with and without the scheme where
both are allowed, and the extra ones. -/
def names (extra : List String) : List String :=
  plainNames ++ plainNames.map (scheme ++ ·) ++ schemedNames ++ extra

/-- The names with the scheme are those that the scheme can be taken off. -/
theorem mem_schemed_iff : name ∈ plainNames.map (scheme ++ ·)
    ↔ ∃ plain, Text.dropStart? name scheme = some plain ∧ plain ∈ plainNames := by
  rw [List.mem_map]
  constructor
  · rintro ⟨plain, hplain, rfl⟩
    exact ⟨plain, Text.dropStart?_eq_some_iff.mpr rfl, hplain⟩
  · rintro ⟨plain, hrest, hplain⟩
    exact ⟨plain, hplain, (Text.dropStart?_eq_some_iff.mp hrest).symm⟩

theorem mem_names_iff : name ∈ names extra ↔ isRuntimeName name = true ∨ name ∈ extra := by
  rw [names, List.mem_append, List.mem_append, List.mem_append, mem_schemed_iff, isRuntimeName,
    Bool.or_eq_true, Bool.or_eq_true, List.contains_iff_mem, List.contains_iff_mem]
  cases Text.dropStart? name scheme with
  | none =>
      simp
  | some plain =>
      simp only [Option.some.injEq, exists_eq_left', List.contains_iff_mem]
      tauto

theorem covers_iff_mem : covers extra s = true ↔ s ∈ names extra ∨ packageName s ∈ names extra := by
  rw [covers, List.any_cons, List.any_cons, List.any_nil, Bool.or_false, mem_names_iff,
    mem_names_iff]
  simp only [Bool.or_eq_true, List.contains_iff_mem]

/-- No listed name has a slash or a scope. -/
theorem not_mem_of_listed :
    ∀ name ∈ plainNames ++ schemedNames, '/' ∉ name.toList ∧ '@' ∉ name.toList := by
  decide +kernel

/-- All names of the runtime are names of packages. -/
theorem isPackage_of_runtime (h : name ∈ names []) : IsPackage name := by
  rw [names, List.append_nil, List.mem_append, List.mem_append] at h
  rcases h with (h | h) | h
  · obtain ⟨hslash, hscope⟩ := not_mem_of_listed name (List.mem_append_left _ h)
    exact isPackage_of_one_piece hslash hscope
  · obtain ⟨plain, hmem, rfl⟩ := List.mem_map.mp h
    obtain ⟨hslash, hscope⟩ := not_mem_of_listed plain (List.mem_append_left _ hmem)
    refine isPackage_of_one_piece ?_ ?_
    · rw [String.toList_append, List.mem_append, not_or]
      exact ⟨by decide, hslash⟩
    · rw [String.toList_append, List.mem_append, not_or]
      exact ⟨by decide, hscope⟩
  · obtain ⟨hslash, hscope⟩ := not_mem_of_listed name (List.mem_append_right _ h)
    exact isPackage_of_one_piece hslash hscope

-- ========================================================= below a name

/-- What is found is a name, or lies below a name that has as many pieces as a package. -/
theorem covers_iff : covers extra s = true
    ↔ ∃ name ∈ names extra, s = name ∨ IsPackage name ∧ ∃ rest, s = name ++ "/" ++ rest := by
  rw [covers_iff_mem]
  constructor
  · rintro (hself | hpackage)
    · exact ⟨s, hself, Or.inl rfl⟩
    · rcases eq_or_isPackage_packageName s with hself | hbelow
      · exact ⟨s, hself ▸ hpackage, Or.inl rfl⟩
      · exact ⟨packageName s, hpackage, Or.inr hbelow⟩
  · rintro ⟨name, hname, rfl | ⟨hpackage, rest, rfl⟩⟩
    · exact Or.inl hname
    · rw [packageName_append hpackage.ge, hpackage.packageName_eq_self]
      exact Or.inr hname

/-- Some piece is longer than every name. -/
theorem exists_longer_piece (names : List String) :
    ∃ piece : String, '/' ∉ piece.toList ∧ ∀ name ∈ names, name.length < piece.length := by
  refine ⟨String.ofList (List.replicate ((names.map String.length).sum + 1) 'x'), ?_,
    fun name hname => ?_⟩
  · rw [String.toList_ofList]
    exact fun h => absurd (List.eq_of_mem_replicate h) (by decide)
  · have hle := List.le_sum_of_mem (List.mem_map_of_mem (f := String.length) hname)
    rw [String.length_ofList, List.length_replicate]
    omega

/-- Where all that lies below a name is found, the name is no scope alone, and the package that
it lies in is found too. -/
theorem packageName_mem_of_below (hbelow : ∀ rest, covers extra (name ++ "/" ++ rest) = true) :
    packageSize name ≤ (pieces '/' name).length ∧ packageName name ∈ names extra := by
  obtain ⟨piece, hslash, hlonger⟩ := exists_longer_piece (names extra)
  have hnew : name ++ "/" ++ piece ∉ names extra := fun hmem => by
    have hlt := hlonger _ hmem
    rw [String.length_append, String.length_append] at hlt
    omega
  have hpackage := (covers_iff_mem.mp (hbelow piece)).resolve_left hnew
  rcases Nat.lt_or_ge (pieces '/' name).length (packageSize name) with hfew | henough
  · -- a scope alone: the piece completes the package, which is then no name
    refine absurd hpackage ?_
    have hpieces : (pieces '/' (name ++ "/" ++ piece)).length
        ≤ packageSize (name ++ "/" ++ piece) := by
      have hone : (pieces '/' piece).length = 1 := by
        rw [pieces, Text.splitOn_of_not_mem hslash]
        rfl
      rw [pieces_append, List.length_append, packageSize_append, hone]
      exact hfew
    rw [packageName_eq, leading_of_length_le hpieces]
    exact hnew
  · rw [packageName_append henough] at hpackage
    exact ⟨henough, hpackage⟩

/-- A specifier leads to a builtin module exactly if it is a name of one, or lies below a name
that has as many pieces as a package. So just the names and all that lies below them lead to
one exactly if no extra name is a scope alone, and the package that an extra name lies in is
always a name itself. -/
theorem covers_subpaths_iff (extra : List String) :
    (∀ s, covers extra s = true
      ↔ ∃ name ∈ names extra, s = name ∨ IsPackage name ∧ ∃ rest, s = name ++ "/" ++ rest) ∧
      ((∀ s, covers extra s = true
          ↔ ∃ name ∈ names extra, s = name ∨ ∃ rest, s = name ++ "/" ++ rest)
        ↔ ∀ name ∈ extra,
          packageSize name ≤ (pieces '/' name).length ∧ packageName name ∈ names extra) := by
  refine ⟨fun s => covers_iff, fun h name hname => ?_, fun h s => ?_⟩
  · refine packageName_mem_of_below fun rest => (h _).mpr ⟨name, ?_, Or.inr ⟨rest, rfl⟩⟩
    exact mem_names_iff.mpr (Or.inr hname)
  · constructor
    · intro hcovers
      obtain ⟨name, hname, hself | ⟨-, hbelow⟩⟩ := covers_iff.mp hcovers
      · exact ⟨name, hname, Or.inl hself⟩
      · exact ⟨name, hname, Or.inr hbelow⟩
    · rintro ⟨name, hname, rfl | ⟨rest, rfl⟩⟩
      · exact covers_iff_mem.mpr (Or.inl hname)
      · rcases List.mem_append.mp hname with hruntime | hextra
        · have hpackage := isPackage_of_runtime (List.mem_append_left [] hruntime)
          exact covers_iff.mpr ⟨name, hname, Or.inr ⟨hpackage, rest, rfl⟩⟩
        · obtain ⟨henough, hpackage⟩ := h name hextra
          rw [← packageName_append henough rest] at hpackage
          exact covers_iff_mem.mpr (Or.inr hpackage)

/-- An extra name of two pieces is found, but what lies below it is not. -/
theorem not_covers_below_longer_name :
    covers ["electron/main"] "electron/main" = true ∧
      covers ["electron/main"] "electron/main/window" = false ∧
      ¬ ∀ s, covers ["electron/main"] s = true
        ↔ ∃ name ∈ names ["electron/main"], s = name ∨ ∃ rest, s = name ++ "/" ++ rest := by
  have hbelow : covers ["electron/main"] "electron/main/window" = false := by decide
  refine ⟨by decide, hbelow, fun h => ?_⟩
  have hname : "electron/main" ∈ names ["electron/main"] := by decide
  rw [(h "electron/main/window").mpr ⟨_, hname, Or.inr ⟨"window", by decide⟩⟩] at hbelow
  cases hbelow

end ImportResolution.Builtins
